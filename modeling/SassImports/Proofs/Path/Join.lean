/-
  SassImports/Proofs/Path/Join.lean
  =================================
  The pieces of a path that is joined to a directory, and what is left of it once the directory is
  taken off again.

    * `pieces_join`: the pieces of `p.join q` are those of `p`, save an empty one at the end, and
      those of `q`;
    * `relativeTo?_join`: below `p`, the path `p.join q` is `q` with the pieces at either end that
      stand for nothing left out;
    * `path_ofFile_join`: so the asset made for a file in a directory has a path with the pieces of
      that file, but for some that stand for nothing (`Thins`);
    * `path_ofFile_of_empty` and `idlesOn_endTrimmed`: the same where the directory is the empty path.
-/
import SassImports.Asset

namespace SassImports.Path

/-! ### Pieces -/

/-- All pieces of the path between slashes, an empty one before a slash at the start included. -/
def pieces (p : Path) : List Text := p.text.splitOn '/'

/-- The pieces of the path that stay when something is joined to it. -/
def innerPieces (p : Path) : List Text :=
  if p.text.getLast? = some '/' then p.pieces.dropLast else p.pieces

variable {p q : Path}

theorem pieces_append_slash (t : Text) : (Path.mk (t ++ ['/'])).pieces = t.splitOn '/' ++ [[]] :=
  List.splitOn_append_cons_self t []

theorem pieces_eq_innerPieces (p : Path) :
    p.pieces = p.innerPieces ∨ p.pieces = p.innerPieces ++ [[]] := by
  unfold innerPieces
  split
  · next h =>
    right
    obtain ⟨t, ht⟩ := List.getLast?_eq_some_iff.1 h
    obtain rfl : p = ⟨t ++ ['/']⟩ := by cases p; simpa using ht
    rw [pieces_append_slash, List.dropLast_concat]
  · exact Or.inl rfl

theorem join_of_absolute (hq : q.isAbsolute = true) : p.join q = q := by
  simp [join, hq]

theorem join_of_relative (hp : p.text ≠ []) (hq : q.isAbsolute = false) :
    (p.join q).text = p.text ++ (if p.text.getLast? = some '/' then [] else ['/']) ++ q.text := by
  have hempty : p.text.isEmpty = false := by simpa using hp
  unfold join
  rw [hq, hempty, Bool.or_false, if_neg Bool.false_ne_true]
  split <;> simp

theorem pieces_join (hp : p.text ≠ []) (hq : q.isAbsolute = false) :
    (p.join q).pieces = p.innerPieces ++ q.pieces := by
  have htext := join_of_relative hp hq
  unfold innerPieces
  by_cases h : p.text.getLast? = some '/'
  · obtain ⟨t, ht⟩ := List.getLast?_eq_some_iff.1 h
    rw [if_pos h] at htext ⊢
    have hpieces : p.pieces = t.splitOn '/' ++ [[]] := by
      rw [← pieces_append_slash, ← ht]
    rw [hpieces, List.dropLast_concat, pieces, htext, ht, List.append_nil, List.append_assoc]
    exact List.splitOn_append_cons_self t q.text
  · rw [if_neg h] at htext ⊢
    rw [pieces, htext, List.append_assoc]
    exact List.splitOn_append_cons_self p.text q.text

/-! ### Lead and segments of a joined path -/

theorem lead?_join (hp : p.text ≠ []) (hq : q.isAbsolute = false) : (p.join q).lead? = p.lead? := by
  have htext := join_of_relative hp hq
  obtain ⟨t⟩ := p
  match t with
  | [] => exact absurd rfl hp
  | [c] =>
    by_cases hslash : c = '/'
    · subst hslash
      simp only [List.getLast?_singleton, if_true, List.append_nil, List.singleton_append] at htext
      simp [lead?, htext]
    · by_cases hdot : c = '.'
      · subst hdot
        simp at htext
        simp [lead?, htext]
      · simp [hslash] at htext
        simp [lead?, htext, hslash, hdot]
  | c :: c' :: t =>
    simp only [List.cons_append] at htext
    unfold lead?
    rw [htext]
    by_cases hslash : c = '/'
    · subst hslash; rfl
    · by_cases hdot : c = '.'
      · subst hdot
        by_cases hslash' : c' = '/'
        · subst hslash'; rfl
        · simp [hslash']
      · simp [hslash, hdot]

theorem body_join (hp : p.text ≠ []) (hq : q.isAbsolute = false) :
    (p.join q).body = p.body ++ (if p.text.getLast? = some '/' then [] else ['/']) ++ q.text := by
  unfold body
  rw [lead?_join hp hq, join_of_relative hp hq, List.append_assoc, List.append_assoc,
    List.drop_append_of_le_length]
  have := List.length_pos_iff.2 hp
  split <;> omega

/-- The segments of `p.join q` end in the pieces of `q`; those before have the components of
    `p`. -/
theorem exists_segments_join (hp : p.text ≠ []) (hq : q.isAbsolute = false) :
    ∃ inner, (p.join q).segments = inner ++ q.pieces ∧
      inner.filterMap Component.ofSegment? = p.segments.filterMap Component.ofSegment? := by
  have hbody := body_join hp hq
  by_cases h : p.text.getLast? = some '/'
  · rw [if_pos h, List.append_nil] at hbody
    by_cases hnil : p.body = []
    · refine ⟨[], by rw [segments, hbody, hnil]; rfl, ?_⟩
      rw [segments, hnil]
      rfl
    · -- the slash at the end of `p` lies in its body
      have hlast : p.body.getLast? = some '/' := by
        rw [← h, ← leadText_append_body p, List.getLast?_append]
        cases hb : p.body.getLast? with
        | none => exact absurd (List.getLast?_eq_none_iff.1 hb) hnil
        | some c => rfl
      obtain ⟨t, ht⟩ := List.getLast?_eq_some_iff.1 hlast
      refine ⟨t.splitOn '/', ?_, ?_⟩
      · rw [segments, hbody, ht, List.append_assoc]
        exact List.splitOn_append_cons_self t q.text
      · rw [segments, ht, List.splitOn_append_cons_self t []]
        simp [Component.ofSegment?]
  · rw [if_neg h, List.append_assoc] at hbody
    refine ⟨p.segments, ?_, rfl⟩
    rw [segments, hbody]
    exact List.splitOn_append_cons_self p.body q.text

/-! ### Leaving out pieces that stand for nothing -/

/-- The first list of pieces is the second one with some pieces that stand for nothing left out or
    written in another way. -/
inductive Thins : List Text → List Text → Prop where
  | nil : Thins [] []
  | keep {x : Text} {xs ys : List Text} (h : Thins xs ys) : Thins (x :: xs) (x :: ys)
  | drop {y : Text} {xs ys : List Text} (hy : isIdle y = true) (h : Thins xs ys) :
      Thins xs (y :: ys)
  | change {x y : Text} {xs ys : List Text} (hx : isIdle x = true) (hy : isIdle y = true)
      (h : Thins xs ys) : Thins (x :: xs) (y :: ys)

namespace Thins

variable {xs ys zs : List Text}

theorem refl (xs : List Text) : Thins xs xs := by
  induction xs with
  | nil => exact .nil
  | cons x xs ih => exact .keep ih

theorem append {xs' ys' : List Text} (h : Thins xs ys) (h' : Thins xs' ys') :
    Thins (xs ++ xs') (ys ++ ys') := by
  induction h with
  | nil => exact h'
  | keep _ ih => exact .keep ih
  | drop hy _ ih => exact .drop hy ih
  | change hx hy _ ih => exact .change hx hy ih

theorem of_idle (h : ∀ z ∈ zs, isIdle z = true) : Thins [] zs := by
  induction zs with
  | nil => exact .nil
  | cons z zs ih => exact .drop (h z (by simp)) (ih fun x hx => h x (by simp [hx]))

end Thins

theorem trimEnd_spec (segments : List Text) :
    ∃ idle, (∀ x ∈ idle, isIdle x = true) ∧ segments = trimEnd segments ++ idle := by
  refine ⟨(segments.reverse.takeWhile isIdle).reverse, fun x hx => ?_, ?_⟩
  · exact List.all_eq_true.1 List.all_takeWhile x (List.mem_reverse.1 hx)
  · rw [trimEnd, ← List.reverse_append, List.takeWhile_append_dropWhile, List.reverse_reverse]

theorem trim_spec (segments : List Text) :
    ∃ before after, (∀ x ∈ before, isIdle x = true) ∧ (∀ x ∈ after, isIdle x = true) ∧
      segments = before ++ trim segments ++ after := by
  obtain ⟨after, hafter, h⟩ := trimEnd_spec (segments.dropWhile isIdle)
  refine ⟨segments.takeWhile isIdle, after, List.all_eq_true.1 List.all_takeWhile, hafter, ?_⟩
  rw [trim, List.append_assoc, ← h, List.takeWhile_append_dropWhile]

theorem trim_append_of_idle {idle : List Text} (h : ∀ x ∈ idle, isIdle x = true)
    (segments : List Text) : trim (idle ++ segments) = trim segments := by
  rw [trim, trim, List.dropWhile_append_of_pos h]

theorem isIdle_of_head?_trim {segments : List Text} {x : Text}
    (h : (trim segments).head? = some x) : isIdle x = false := by
  obtain ⟨after, -, hafter⟩ := trimEnd_spec (segments.dropWhile isIdle)
  have hhead : (segments.dropWhile isIdle).head? = some x := by
    rw [hafter, List.head?_append]
    change (trimEnd _).head? = some x at h
    rw [h]
    rfl
  have := List.head?_dropWhile_not isIdle segments
  rw [hhead] at this
  exact this

theorem slash_notMem_of_mem_splitOn {t x : Text} (h : x ∈ t.splitOn '/') : '/' ∉ x := by
  induction t generalizing x with
  | nil => simp_all
  | cons c t ih =>
    rw [List.splitOn_cons_eq_if_modifyHead] at h
    split at h
    · rcases List.mem_cons.1 h with rfl | h
      · exact List.not_mem_nil
      · exact ih h
    · next hc =>
      cases ht : t.splitOn '/' with
      | nil => exact absurd ht (List.splitOn_ne_nil _ _)
      | cons y ys =>
        rw [ht] at h ih
        rcases List.mem_cons.1 h with rfl | h
        · have hy := ih (x := y) (by simp)
          simpa [hy] using fun hslash : '/' = c => hc (beq_iff_eq.2 hslash.symm)
        · exact ih (by simp [h])

def trimmed (q : Path) : Path := ofSegments [] (trim q.pieces)

theorem pieces_trimmed (q : Path) :
    q.trimmed.pieces = if trim q.pieces = [] then [[]] else trim q.pieces := by
  obtain ⟨before, after, -, -, h⟩ := trim_spec q.pieces
  unfold trimmed ofSegments
  split
  · next hnil => rw [hnil]; rfl
  · next hne =>
    refine List.splitOn_intercalate '/' (fun x hx => ?_) hne
    have hmem : x ∈ q.pieces := by
      rw [h]
      simp [hx]
    exact slash_notMem_of_mem_splitOn hmem

theorem thins_trimmed (q : Path) : Thins q.trimmed.pieces q.pieces := by
  obtain ⟨before, after, hbefore, hafter, h⟩ := trim_spec q.pieces
  rw [pieces_trimmed]
  split
  · next hnil =>
    rw [hnil, List.append_nil] at h
    cases hq : q.pieces with
    | nil => exact absurd hq (List.splitOn_ne_nil _ _)
    | cons y ys =>
      rw [hq] at h
      have hidle : ∀ x ∈ y :: ys, isIdle x = true := by
        rw [h]
        intro x hx
        exact (List.mem_append.1 hx).elim (hbefore x) (hafter x)
      refine .change rfl (hidle y (by simp)) (.of_idle fun x hx => hidle x (by simp [hx]))
  · have hthin := ((Thins.of_idle hbefore).append (.refl (trim q.pieces))).append (.of_idle hafter)
    rw [← h] at hthin
    simpa using hthin

theorem isAbsolute_trimmed (q : Path) : q.trimmed.isAbsolute = false := by
  refine Bool.eq_false_iff.2 fun h => ?_
  obtain ⟨t, ht⟩ : ∃ t, q.trimmed.text = '/' :: t :=
    List.head?_eq_some_iff.1 (of_decide_eq_true h)
  have hpieces : q.trimmed.pieces = [] :: t.splitOn '/' := by
    rw [pieces, ht]
    exact List.splitOn_append_cons_self [] t
  rw [pieces_trimmed] at hpieces
  split at hpieces
  · exact List.splitOn_ne_nil _ _ (List.cons.inj hpieces).2.symm
  · -- a trimmed list does not begin with an empty piece
    have hidle : isIdle [] = false := isIdle_of_head?_trim (by rw [hpieces]; rfl)
    cases hidle

theorem mem_intercalate {c sep : Char} {ts : List Text} (h : c ∈ [sep].intercalate ts) :
    c = sep ∨ ∃ t ∈ ts, c ∈ t := by
  induction ts with
  | nil => cases h
  | cons t ts ih =>
    cases ts with
    | nil => exact Or.inr ⟨t, by simp, by simpa using h⟩
    | cons t' ts =>
      rw [List.intercalate_cons_cons, List.append_assoc] at h
      rcases List.mem_append.1 h with h | h
      · exact Or.inr ⟨t, by simp, h⟩
      · rcases List.mem_cons.1 h with h | h
        · exact Or.inl h
        · rcases ih h with h | ⟨x, hx, h⟩
          · exact Or.inl h
          · exact Or.inr ⟨x, List.mem_cons_of_mem _ hx, h⟩

theorem mem_intercalate_of_mem {c sep : Char} {t : Text} {ts : List Text} (ht : t ∈ ts)
    (h : c ∈ t) : c ∈ [sep].intercalate ts := by
  induction ts with
  | nil => cases ht
  | cons t' ts ih =>
    cases ts with
    | nil => simp_all
    | cons t'' ts =>
      rw [List.intercalate_cons_cons, List.append_assoc]
      rcases List.mem_cons.1 ht with rfl | ht
      · exact List.mem_append_left _ h
      · exact List.mem_append_right _ (List.mem_append_right _ (ih ht))

theorem mem_of_mem_trimmed {c : Char} (h : c ∈ q.trimmed.text) : c = '/' ∨ c ∈ q.text := by
  obtain ⟨before, after, -, -, hpieces⟩ := trim_spec q.pieces
  refine (mem_intercalate h).imp_right ?_
  rintro ⟨t, ht, hc⟩
  have hmem : t ∈ q.pieces := by
    rw [hpieces]
    simp [ht]
  have htext : ['/'].intercalate q.pieces = q.text := List.intercalate_splitOn '/'
  rw [← htext]
  exact mem_intercalate_of_mem hmem hc

/-! ### Taking the directory off again -/

theorem exists_afterComponents? (inner rest : List Text) :
    ∃ idle, (∀ x ∈ idle, isIdle x = true) ∧
      afterComponents? (inner.filterMap Component.ofSegment?) (inner ++ rest) =
        some (idle ++ rest) := by
  induction inner with
  | nil => exact ⟨[], by simp, by simp [afterComponents?]⟩
  | cons x inner ih =>
    obtain ⟨idle, hidle, hrest⟩ := ih
    cases hx : Component.ofSegment? x with
    | some c => exact ⟨idle, hidle, by simp [hx, afterComponents?, hrest]⟩
    | none =>
      rw [List.filterMap_cons_none hx, List.cons_append]
      cases hc : inner.filterMap Component.ofSegment? with
      | nil =>
        -- no component is left, so that all the remaining pieces stand for nothing
        refine ⟨x :: inner, ?_, by simp [afterComponents?]⟩
        intro y hy
        rcases List.mem_cons.1 hy with rfl | hy
        · simp [isIdle, hx]
        · simp [isIdle, List.filterMap_eq_nil_iff.1 hc y hy]
      | cons c cs =>
        rw [hc] at hrest
        exact ⟨idle, hidle, by simp [afterComponents?, hx, hrest]⟩

theorem ofSegment?_eq_none_iff {x : Text} :
    Component.ofSegment? x = none ↔ x = [] ∨ x = ['.'] := by
  constructor
  · intro h
    unfold Component.ofSegment? at h
    split at h <;> simp_all
  · rintro (rfl | rfl) <;> rfl

theorem components_ne_nil (hp : p.text ≠ []) : p.components ≠ [] := by
  intro h
  obtain ⟨hlead, hsegments⟩ := List.append_eq_nil_iff.1 h
  have hlead : p.lead? = none := by simpa using hlead
  have hbody : p.body = p.text := by simp [body, hlead]
  obtain ⟨x, xs, hx⟩ := List.exists_cons_of_ne_nil (List.splitOn_ne_nil '/' p.body)
  -- the first piece stands for nothing, so it is empty or a dot
  have hidle : Component.ofSegment? x = none :=
    List.filterMap_eq_nil_iff.1 hsegments x (by rw [segments, hx]; simp)
  have htext : ['/'].intercalate (x :: xs) = p.text := by
    rw [← hx, ← hbody]
    exact intercalate_segments p
  unfold lead? at hlead
  rcases ofSegment?_eq_none_iff.1 hidle with rfl | rfl
  · cases xs with
    | nil => exact hp htext.symm
    | cons y ys => rw [← htext] at hlead; cases hlead
  · cases xs with
    | nil => rw [← htext] at hlead; cases hlead
    | cons y ys => rw [← htext] at hlead; cases hlead

theorem relativeTo?_join (hp : p.text ≠ []) (hq : q.isAbsolute = false) :
    (p.join q).relativeTo? p = some q.trimmed := by
  obtain ⟨inner, hsegments, hinner⟩ := exists_segments_join hp hq
  obtain ⟨idle, hidle, hafter⟩ := exists_afterComponents? inner q.pieces
  have htrim : ofSegments [] (trim (idle ++ q.pieces)) = q.trimmed := by
    rw [trim_append_of_idle hidle]
    rfl
  have hcomponents : p.components = p.lead?.toList ++ inner.filterMap Component.ofSegment? := by
    rw [components, hinner]
  have hne := components_ne_nil hp
  rw [hcomponents] at hne
  unfold relativeTo?
  rw [lead?_join hp hq, hsegments, hcomponents]
  cases hlead : p.lead? with
  | some lead => simp [hafter, htrim]
  | none =>
    have hcs : inner.filterMap Component.ofSegment? ≠ [] := by simpa [hlead] using hne
    cases h : inner.filterMap Component.ofSegment? with
    | nil => exact absurd h hcs
    | cons c cs =>
      rw [h] at hafter
      simp [hafter, htrim]

theorem path_ofFile_join (hp : p.text ≠ []) (hq : q.isAbsolute = false) :
    (Asset.ofFile (p.join q) p).path = p.join q.trimmed := by
  rw [Asset.ofFile, relativeTo?_join hp hq]
  rfl

/-! ### Below the empty path -/

/-- The text `t` goes on with slashes and pieces that stand for nothing, if at all. -/
def IdlesOn (t w : Text) : Prop :=
  w = t ∨ ∃ v : Text, w = t ++ '/' :: v ∧ ∀ x ∈ v.splitOn '/', isIdle x = true

theorem IdlesOn.append {t w : Text} (h : IdlesOn t w) (lead : Text) :
    IdlesOn (lead ++ t) (lead ++ w) := by
  rcases h with rfl | ⟨v, rfl, hidle⟩
  · exact .inl rfl
  · exact .inr ⟨v, by rw [List.append_assoc], hidle⟩

theorem IdlesOn.thins {t w : Text} (h : IdlesOn t w) : Thins (t.splitOn '/') (w.splitOn '/') := by
  rcases h with rfl | ⟨v, rfl, hidle⟩
  · exact .refl _
  · rw [List.splitOn_append_cons_self]
    have hthin := (Thins.refl (t.splitOn '/')).append (.of_idle hidle)
    rwa [List.append_nil] at hthin

theorem idlesOn_trimEnd (t : Text) (hne : trimEnd (t.splitOn '/') ≠ []) :
    IdlesOn (['/'].intercalate (trimEnd (t.splitOn '/'))) t := by
  obtain ⟨idle, hidle, hsplit⟩ := trimEnd_spec (t.splitOn '/')
  have hclean : ∀ x ∈ trimEnd (t.splitOn '/') ++ idle, '/' ∉ x := by
    intro x hx
    rw [← hsplit] at hx
    exact slash_notMem_of_mem_splitOn hx
  cases idle with
  | nil =>
    rw [List.append_nil] at hsplit
    left
    rw [← hsplit]
    exact (List.intercalate_splitOn '/').symm
  | cons y ys =>
    have hidles : (['/'].intercalate (y :: ys)).splitOn '/' = y :: ys :=
      List.splitOn_intercalate '/' (fun x hx => hclean x (List.mem_append_right _ hx)) (by simp)
    have htrimmed : (['/'].intercalate (trimEnd (t.splitOn '/'))).splitOn '/' =
        trimEnd (t.splitOn '/') :=
      List.splitOn_intercalate '/' (fun x hx => hclean x (List.mem_append_left _ hx)) hne
    refine .inr ⟨['/'].intercalate (y :: ys), ?_, by rwa [hidles]⟩
    -- both texts have the same pieces
    have hpieces : t.splitOn '/' = (['/'].intercalate (trimEnd (t.splitOn '/')) ++
        '/' :: ['/'].intercalate (y :: ys)).splitOn '/' := by
      rw [List.splitOn_append_cons_self, hidles, htrimmed, ← hsplit]
    have htext := congrArg (['/'].intercalate) hpieces
    rwa [List.intercalate_splitOn, List.intercalate_splitOn] at htext

def endTrimmed (q : Path) : Path := ofSegments q.leadText (trimEnd q.segments)

theorem lead?_of_relative (hq : q.isAbsolute = false) :
    q.lead? = none ∨
      (q.lead? = some .current ∧ (q.text = ['.'] ∨ ∃ t, q.text = '.' :: '/' :: t)) := by
  unfold lead?
  split
  · next t ht => simp [isAbsolute, ht] at hq
  · next ht => exact .inr ⟨rfl, .inl ht⟩
  · next t ht => exact .inr ⟨rfl, .inr ⟨t, ht⟩⟩
  · exact .inl rfl

theorem idlesOn_endTrimmed (hne : q.text ≠ []) (hq : q.isAbsolute = false) :
    IdlesOn q.endTrimmed.text q.text := by
  by_cases htrim : trimEnd q.segments = []
  · obtain ⟨idle, hidle, hsplit⟩ := trimEnd_spec q.segments
    rw [htrim, List.nil_append] at hsplit
    rw [← hsplit] at hidle
    have htrimmed : q.endTrimmed.text = q.leadText := by
      rw [endTrimmed, ofSegments, htrim]
      exact List.append_nil _
    rcases lead?_of_relative hq with hlead | ⟨hlead, ht | ⟨t, ht⟩⟩
    · -- without a lead some piece stands for a component
      have hnone : q.segments.filterMap Component.ofSegment? = [] := by
        apply List.filterMap_eq_nil_iff.2
        intro x hx
        simpa [isIdle] using hidle x hx
      exact absurd (by rw [components, hlead, hnone]; rfl) (components_ne_nil hne)
    · left
      simp [htrimmed, leadText, hlead, ht]
    · right
      have hsegments : q.segments = [] :: t.splitOn '/' := by
        have hbody : q.body = [] ++ '/' :: t := by simp [body, hlead, ht]
        rw [segments, hbody]
        exact List.splitOn_append_cons_self [] t
      rw [hsegments] at hidle
      refine ⟨t, ?_, fun x hx => hidle x (List.mem_cons_of_mem _ hx)⟩
      simp [htrimmed, leadText, hlead, ht]
  · have hbody := (idlesOn_trimEnd q.body htrim).append q.leadText
    rwa [leadText_append_body] at hbody

theorem path_ofFile_of_empty (q : Path) : (Asset.ofFile q ⟨[]⟩).path = q.endTrimmed := by
  have h : q.relativeTo? ⟨[]⟩ = some q.endTrimmed := by
    unfold relativeTo?
    rfl
  rw [Asset.ofFile, h]
  simp [Asset.path, Asset.ofPaths, join]

end SassImports.Path
