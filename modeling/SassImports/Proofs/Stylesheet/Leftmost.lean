/-
  SassImports/Proofs/Stylesheet/Leftmost.lean
  ===========================================
  Statements and targets as patterns.  The readers of this library go over a text once and never
  take back what they have read; a pattern tries its ways in the order of preference.  Both find the
  same matches.

    * `Pattern.statement` and `Pattern.target`, as one would write them for a search;
    * `first?_statement` and `first?_target`: the preferred way is what the readers answer, since
      every way that is given up leaves a character that the rest of the pattern cannot start with;
    * `importReferences_leftmost`: hence bodies and targets are the leftmost matches of the patterns.
-/
import SassImports.Proofs.Stylesheet.Recognition

namespace SassImports

open Stylesheet
open Text (isBlank skipBlanks)

namespace Pattern

def oneOf (cs : Text) : Pattern := .one fun c => c ∈ cs

def noneOf (cs : Text) : Pattern := .one fun c => c ∉ cs

/-! ### Statements -/

/-- Characters up to a comma, and the comma with the blanks behind it. -/
def piece : Pattern :=
  .seq (.many (noneOf [';', '{', '}', '\n', ','])) (.seq (oneOf [',']) (.many (.one isBlank)))

/-- Pieces and then characters of one line. -/
def body : Pattern := .seq (.many piece) (.many (noneOf [';', '{', '}', '\n']))

def statement : Pattern :=
  .seq (word Statement.keyword)
    (.seq (oneOf [' ', '\t']) (.seq (.many (oneOf [' ', '\t'])) (.group body)))

/-! ### Targets -/

def quoted (q : Char) : Pattern :=
  .seq (oneOf [q]) (.seq (.group (.many (noneOf [q]))) (oneOf [q]))

/-- A run, maybe empty, without quotes, blanks and closing parentheses. -/
def unquoted : Pattern := .group (.many (.one fun c => c ∉ [')', '"', '\''] && !isBlank c))

def close : Pattern := .seq (.many (.one isBlank)) (oneOf [')'])

def url : Pattern :=
  .seq (word "url(".toList) (.seq (.many (.one isBlank))
    (.seq (.alt (quoted '"') (.alt (quoted '\'') unquoted)) close))

def target : Pattern := .alt url (.alt (quoted '"') (quoted '\''))

variable {t u x after : Text} {c q : Char}

/-! ### What a statement matches -/

theorem ways_oneOf_cons {cs : Text} (c : Char) (t : Text) :
    (oneOf cs).ways (c :: t) = if c ∈ cs then [⟨[], t⟩] else [] := by
  rw [oneOf, ways_one_cons]
  simp

/-- Outside of pieces a body has no comma. -/
def inPiece (c : Char) : Bool := c ∉ [';', '{', '}', '\n', ',']

def inLine (c : Char) : Bool := c ∉ [';', '{', '}', '\n']

theorem inPiece_iff : inPiece c = true ↔ Statement.isEnd c = false ∧ c ≠ '\n' ∧ c ≠ ',' := by
  simp [inPiece, Statement.isEnd, and_assoc]

theorem inLine_iff : inLine c = true ↔ Statement.isEnd c = false ∧ c ≠ '\n' := by
  simp [inLine, Statement.isEnd, and_assoc]

theorem ways_piece (t : Text) :
    piece.ways t = (seq (oneOf [',']) (many (one isBlank))).ways (t.dropWhile inPiece) := by
  refine ways_many_one_seq (fun c u hc => ?_) t
  apply ways_seq_of_ways_eq_nil
  rw [ways_oneOf_cons, if_neg]
  simpa using (inPiece_iff.1 hc).2.2

theorem first?_piece (h : t.dropWhile inPiece = ',' :: u) :
    piece.first? t = some ⟨[], skipBlanks u⟩ := by
  obtain ⟨others, hways, -⟩ := exists_ways_many_one isBlank u
  rw [first?, ways_piece, h, ways_seq_of_ways (ways_oneOf_cons ',' u), hways]
  rfl

theorem ways_piece_eq_nil (h : ∀ u, t.dropWhile inPiece ≠ ',' :: u) : piece.ways t = [] := by
  rw [ways_piece]
  apply ways_seq_of_ways_eq_nil
  cases hdrop : t.dropWhile inPiece with
  | nil => rfl
  | cons c u =>
    rw [ways_oneOf_cons, if_neg]
    rw [List.mem_singleton]
    rintro rfl
    exact h u hdrop

theorem within_of_inPiece {run : Text} (h : ∀ c ∈ run, inPiece c = true) :
    Statement.Within false run false := by
  induction run with
  | nil => exact .nil
  | cons c run ih =>
    obtain ⟨hc, hrun⟩ := List.forall_mem_cons.1 h
    obtain ⟨hend, hline, hcomma⟩ := inPiece_iff.1 hc
    refine .cons hend (fun h => absurd h hline) ?_
    rw [decide_eq_false hcomma]
    exact ih hrun

theorem takeBody_of_head? (afterComma : Bool) (h : ∀ c ∈ t.head?, isBlank c = false) :
    Statement.takeBody afterComma t = Statement.takeBody false t := by
  cases t with
  | nil => rfl
  | cons c t =>
    have hc := h c rfl
    have hline : c ≠ '\n' := by
      rintro rfl
      cases hc
    simp [Statement.takeBody, hc, hline]

/-- A body goes on behind a piece. -/
theorem takeBody_piece (h : t.dropWhile inPiece = ',' :: u) :
    (Statement.takeBody false t).2 = (Statement.takeBody false (skipBlanks u)).2 := by
  obtain ⟨lead, hlead, hu, hhead⟩ := Target.exists_append_skipBlanks u
  have hrun : Statement.Within false (t.takeWhile inPiece) false :=
    within_of_inPiece fun c hc => of_mem_takeWhile hc
  have hblanks : Statement.Within true lead true := Statement.within_blanks hlead fun _ => rfl
  have ht : t = t.takeWhile inPiece ++ [','] ++ lead ++ skipBlanks u := by
    rw [List.append_assoc, ← hu, List.append_assoc, List.singleton_append, ← h,
      List.takeWhile_append_dropWhile]
  have htake := Statement.takeBody_of_within
    ((hrun.append Statement.within_comma).append hblanks) (skipBlanks u)
  rw [← ht, takeBody_of_head? true hhead] at htake
  rw [htake]

/-- Where no piece is left, the body ends in this line. -/
theorem takeBody_line (h : ∀ u, t.dropWhile inPiece ≠ ',' :: u) :
    (Statement.takeBody false t).2 = t.dropWhile inLine := by
  have hrun : ∀ c ∈ t.takeWhile inPiece, inPiece c = true := fun c hc => of_mem_takeWhile hc
  have hline : ∀ c ∈ t.takeWhile inPiece, inLine c = true := by
    intro c hc
    obtain ⟨hend, hline, -⟩ := inPiece_iff.1 (hrun c hc)
    exact inLine_iff.2 ⟨hend, hline⟩
  have hhead : ∀ c ∈ (t.dropWhile inPiece).head?, inLine c = false := by
    intro c hc
    obtain ⟨u, hdrop⟩ := List.head?_eq_some_iff.1 hc
    have hpiece := of_head?_dropWhile hc
    rw [← Bool.not_eq_true] at hpiece ⊢
    intro hline
    obtain ⟨hend, hline⟩ := inLine_iff.1 hline
    refine hpiece (inPiece_iff.2 ⟨hend, hline, ?_⟩)
    rintro rfl
    exact h u hdrop
  -- both stop where the run of the piece stops
  rw [← @List.takeWhile_append_dropWhile _ inPiece t,
    Statement.takeBody_of_within (within_of_inPiece hrun), List.dropWhile_append_of_pos hline]
  cases hdrop : t.dropWhile inPiece with
  | nil => rfl
  | cons c u =>
    have hc := hhead c (by rw [hdrop]; rfl)
    have hend : (Statement.isEnd c || (c = '\n' && !false)) = true := by
      cases hline : Statement.isEnd c with
      | true => rfl
      | false =>
        rw [← Bool.not_eq_true, inLine_iff, not_and, Decidable.not_not] at hc
        simp [hc hline]
    rw [Statement.takeBody, if_pos hend, List.dropWhile_cons_of_neg (by simp [hc])]

theorem exists_first?_pieces {bound : Nat} (h : t.length ≤ bound) :
    ∃ v, (repeated piece.ways bound t).head? = some ⟨[], v⟩ ∧
      v.dropWhile inLine = (Statement.takeBody false t).2 := by
  induction bound generalizing t with
  | zero =>
    obtain rfl := List.length_eq_zero_iff.1 (Nat.le_zero.1 h)
    exact ⟨[], rfl, rfl⟩
  | succ bound ih =>
    by_cases hpiece : ∃ u, t.dropWhile inPiece = ',' :: u
    · obtain ⟨u, hu⟩ := hpiece
      have hlength := (List.dropWhile_sublist inPiece (l := t)).length_le
      rw [hu, List.length_cons] at hlength
      have hlt : (skipBlanks u).length < t.length := by
        have := Target.length_skipBlanks u
        omega
      obtain ⟨v, hv, htake⟩ := @ih (skipBlanks u) (by omega)
      refine ⟨v, ?_, htake.trans (takeBody_piece hu).symm⟩
      rw [head?_repeated_of_some (first?_piece hu) hlt, hv]
      rfl
    · have hnone : ∀ u, t.dropWhile inPiece ≠ ',' :: u := fun u hu => hpiece ⟨u, hu⟩
      exact ⟨t, head?_repeated_of_none (ways_piece_eq_nil hnone) _, (takeBody_line hnone).symm⟩

theorem first?_body (t : Text) : body.first? t = some ⟨[], (Statement.takeBody false t).2⟩ := by
  obtain ⟨v, hv, htake⟩ := @exists_first?_pieces t t.length (Nat.le_refl _)
  obtain ⟨others, hways, -⟩ := exists_ways_many_one inLine v
  have hline : (many (noneOf [';', '{', '}', '\n'])).first? v = some ⟨[], v.dropWhile inLine⟩ := by
    show ((many (one inLine)).ways v).head? = _
    rw [hways]
    rfl
  have hpieces : (many piece).first? t = some ⟨[], v⟩ := hv
  rw [htake] at hline
  exact first?_seq_of_some hpieces hline

theorem first?_group_body (t : Text) :
    (group body).first? t =
      some ⟨[(Statement.takeBody false t).1], (Statement.takeBody false t).2⟩ := by
  have happend := Statement.takeBody_append false t
  have htake : t.take (t.length - (Statement.takeBody false t).2.length) =
      (Statement.takeBody false t).1 := by
    have hlength := congrArg List.length happend
    rw [List.length_append] at hlength
    have hcount : t.length - (Statement.takeBody false t).2.length =
        (Statement.takeBody false t).1.length := by
      omega
    rw [hcount]
    exact (List.prefix_iff_eq_take.1 ⟨_, happend⟩).symm
  rw [first?_group, first?_body, Option.map_some, htake]

theorem decide_mem_gap : (fun c => decide (c ∈ [' ', '\t'])) = Statement.isGap := by
  funext c
  simp [Statement.isGap]

/-- The body begins behind all spaces and tabs, since it can begin with any character. -/
theorem first?_gap_body (t : Text) :
    (seq (many (oneOf [' ', '\t'])) (group body)).first? t =
      some ⟨[(Statement.takeBody false (t.dropWhile Statement.isGap)).1],
        (Statement.takeBody false (t.dropWhile Statement.isGap)).2⟩ := by
  rw [oneOf, decide_mem_gap, first?_many_one_seq, first?_group_body]
  intro hnone
  rw [first?_group_body] at hnone
  cases hnone

theorem first?_statement (t : Text) :
    statement.first? t = (Statement.afterKeyword? t).map fun u =>
      ⟨[(Statement.takeBody false u).1], (Statement.takeBody false u).2⟩ := by
  have hword := ways_word Statement.keyword t
  rw [Statement.afterKeyword?]
  split
  · next hprefix =>
    rw [if_pos hprefix] at hword
    rw [statement, first?_seq_of_ways hword]
    cases t.drop Statement.keyword.length with
    | nil => rfl
    | cons c u =>
      have hone : (oneOf [' ', '\t']).ways (c :: u) =
          if Statement.isGap c then [⟨[], u⟩] else [] := by
        rw [oneOf, decide_mem_gap, ways_one_cons]
      show _ = (if Statement.isGap c = true then some (u.dropWhile Statement.isGap) else none).map _
      by_cases hc : Statement.isGap c = true
      · rw [if_pos hc] at hone
        rw [if_pos hc, first?_seq_of_ways hone, first?_gap_body]
        rfl
      · rw [if_neg hc] at hone
        rw [if_neg hc, first?_seq_of_ways_eq_nil hone]
        rfl
  · next hprefix =>
    rw [if_neg hprefix] at hword
    rw [statement, first?_seq_of_ways_eq_nil hword]
    rfl

/-! ### What a target matches -/

theorem ways_noneOf_seq_oneOf (q : Char) (t : Text) :
    (seq (group (many (noneOf [q]))) (oneOf [q])).ways t =
      match t.dropWhile (· ≠ q) with
      | _ :: after => [⟨[t.takeWhile (· ≠ q)], after⟩]
      | [] => [] := by
  have hclass : (fun c => decide (c ∉ [q])) = (fun c => decide (c ≠ q)) := by
    funext c
    simp
  rw [noneOf, hclass, ways_group_many_one_seq]
  · cases hdrop : t.dropWhile (· ≠ q) with
    | nil => rfl
    | cons c after =>
      rw [ways_oneOf_cons, if_pos (by simp [eq_of_dropWhile_ne hdrop])]
      rfl
  · intro c u hc
    rw [ways_oneOf_cons, if_neg (by simpa using hc)]

theorem ways_quoted_cons (hq : q = '"' ∨ q = '\'') (t : Text) :
    (quoted q).ways (q :: t) =
      (Target.quotedTarget? (q :: t)).toList.map fun p => ⟨[p.1], p.2⟩ := by
  have hone : (oneOf [q]).ways (q :: t) = [⟨[], t⟩] := by
    rw [ways_oneOf_cons, if_pos (by simp)]
  rw [quoted, ways_seq_of_ways hone, ways_noneOf_seq_oneOf, Target.quotedTarget?, if_pos hq]
  cases t.dropWhile (· ≠ q) <;> rfl

theorem ways_quoted_eq_nil (h : ∀ c ∈ t.head?, c ≠ q) : (quoted q).ways t = [] := by
  apply ways_seq_of_ways_eq_nil
  cases t with
  | nil => rfl
  | cons c t => rw [ways_oneOf_cons, if_neg (by simpa using h c rfl)]

/-- A string in quotes of either kind. -/
theorem ways_quoted_append (t : Text) :
    (quoted '"').ways t ++ (quoted '\'').ways t =
      (Target.quotedTarget? t).toList.map fun p => ⟨[p.1], p.2⟩ := by
  cases t with
  | nil => rfl
  | cons c t =>
    by_cases hdouble : c = '"'
    · subst hdouble
      have hsingle : (quoted '\'').ways ('"' :: t) = [] := by
        apply ways_quoted_eq_nil
        simp
      rw [hsingle, List.append_nil, ways_quoted_cons (.inl rfl)]
    · have hnone : (quoted '"').ways (c :: t) = [] := by
        apply ways_quoted_eq_nil
        simpa using hdouble
      rw [hnone, List.nil_append]
      by_cases hsingle : c = '\''
      · subst hsingle
        exact ways_quoted_cons (.inr rfl) t
      · have hnone' : (quoted '\'').ways (c :: t) = [] := by
          apply ways_quoted_eq_nil
          simpa using hsingle
        rw [hnone', Target.quotedTarget?, if_neg (not_or.2 ⟨hdouble, hsingle⟩)]
        rfl

theorem ways_close (t : Text) :
    close.ways t = (Target.closeUrl? t).toList.map fun after => ⟨[], after⟩ := by
  rw [close, ways_many_one_seq, Target.closeUrl?]
  · show (oneOf [')']).ways (skipBlanks t) = _
    cases skipBlanks t with
    | nil => rfl
    | cons c u =>
      rw [ways_oneOf_cons]
      by_cases hc : c = ')'
      · subst hc
        rfl
      · rw [if_neg (by simpa using hc)]
        split
        · next h => exact absurd (List.cons.inj h).1 hc
        · rfl
  · intro c u hc
    rw [ways_oneOf_cons, if_neg]
    rw [List.mem_singleton]
    exact ne_of_isBlank hc rfl

theorem closeUrl?_eq_none (h : ∀ c ∈ t.head?, Target.isUrlChar c = true ∨ c = '"' ∨ c = '\'') :
    Target.closeUrl? t = none := by
  cases t with
  | nil => rfl
  | cons c t =>
    have hc : isBlank c = false ∧ c ≠ ')' := by
      rcases h c rfl with hc | rfl | rfl
      · obtain ⟨hclose, -, -, hblank⟩ := Target.isUrlChar_iff.1 hc
        exact ⟨hblank, hclose⟩
      · decide
      · decide
    rw [Target.closeUrl?, Target.skipBlanks_cons hc.1]
    split
    · next h => exact absurd (List.cons.inj h).1 hc.2
    · rfl

theorem ways_seq_alt (p p' r : Pattern) (t : Text) :
    (seq (alt p p') r).ways t = (seq p r).ways t ++ (seq p' r).ways t := by
  simp only [ways, List.flatMap_append]

theorem ways_unquoted_close (t : Text) :
    (seq unquoted close).ways t =
      (Target.closeUrl? (t.dropWhile Target.isUrlChar)).toList.map fun after =>
        ⟨[t.takeWhile Target.isUrlChar], after⟩ := by
  have hclass : (fun c => decide (c ∉ [')', '"', '\'']) && !isBlank c) = Target.isUrlChar := by
    funext c
    simp [Target.isUrlChar, Bool.and_assoc]
  rw [unquoted, hclass, ways_group_many_one_seq, ways_close, List.map_map]
  · rfl
  · intro c u hc
    have hnone : Target.closeUrl? (c :: u) = none := by
      apply closeUrl?_eq_none
      intro d hd
      obtain rfl := Option.some.inj hd
      exact .inl hc
    rw [ways_close, hnone]
    rfl

/-- Of the three alternatives in a `url(...)` the first one that can be closed is the one that the
    reader takes. -/
theorem ways_urlBody (t : Text) :
    (seq (alt (quoted '"') (alt (quoted '\'') unquoted)) close).ways t =
      (Target.closeUrl? (Target.urlBody t).2).toList.map fun after =>
        ⟨[(Target.urlBody t).1], after⟩ := by
  have hquoted : (seq (quoted '"') close).ways t ++ (seq (quoted '\'') close).ways t =
      ((Target.quotedTarget? t).toList.map fun p => Way.mk [p.1] p.2).flatMap fun m =>
        (close.ways m.rest).map m.append := by
    rw [← ways_quoted_append, List.flatMap_append]
    simp only [ways]
  rw [ways_seq_alt, ways_seq_alt, ← List.append_assoc, hquoted, ways_unquoted_close,
    Target.urlBody]
  cases hq : Target.quotedTarget? t with
  | none => rfl
  | some p =>
    obtain ⟨q, hquote, -, ht⟩ := Target.quotedTarget?_eq_some_iff.1 hq
    -- the empty run before a quote cannot be closed
    have hstop : t.dropWhile Target.isUrlChar = t := by
      rw [ht, List.dropWhile_cons_of_neg]
      rcases hquote with rfl | rfl <;> decide
    have hnone : Target.closeUrl? t = none := by
      apply closeUrl?_eq_none
      intro c hc
      rw [ht] at hc
      obtain rfl := Option.some.inj hc
      exact .inr hquote
    rw [hstop, hnone, Option.toList_some, List.map_singleton, List.flatMap_singleton, ways_close,
      List.map_map]
    exact List.append_nil _

/-- A shorter run of blanks leaves a blank, which only an empty body can come before. -/
theorem first?_blanks_urlBody (t : Text) :
    (seq (many (one isBlank))
        (seq (alt (quoted '"') (alt (quoted '\'') unquoted)) close)).first? t =
      (Target.closeUrl? (Target.urlBody (skipBlanks t)).2).map fun after =>
        ⟨[(Target.urlBody (skipBlanks t)).1], after⟩ := by
  rw [first?_many_one_seq]
  · show ((seq _ close).ways (skipBlanks t)).head? = _
    rw [ways_urlBody]
    cases Target.closeUrl? _ <;> rfl
  · intro hnone c u hc hrun
    have hempty : Target.urlBody (c :: u) = ([], c :: u) := by
      have hquoted : Target.quotedTarget? (c :: u) = none := by
        rw [Target.quotedTarget?, if_neg]
        exact not_or.2 ⟨ne_of_isBlank hc rfl, ne_of_isBlank hc rfl⟩
      have hchar : Target.isUrlChar c = false := by
        simp [Target.isUrlChar, hc]
      rw [Target.urlBody, hquoted, List.takeWhile_cons_of_neg (by simp [hchar]),
        List.dropWhile_cons_of_neg (by simp [hchar])]
    have hsame : Target.closeUrl? (c :: u) = Target.closeUrl? (skipBlanks t) := by
      have hskip : skipBlanks (c :: u) = skipBlanks t := hrun
      have hagain : skipBlanks (skipBlanks t) = skipBlanks t := by
        obtain ⟨lead, -, -, hhead⟩ := Target.exists_append_skipBlanks t
        exact @Target.skipBlanks_append (skipBlanks t) [] (by simp) hhead
      rw [Target.closeUrl?, Target.closeUrl?, hskip, hagain]
    have hclosed : Target.closeUrl? (skipBlanks t) = none := by
      cases hclose : Target.closeUrl? (skipBlanks t) with
      | none => rfl
      | some after =>
        obtain ⟨trail, htrail, ht⟩ := Target.closeUrl?_eq_some_iff.1 hclose
        have hbody : Target.urlBody (skipBlanks t) = ([], skipBlanks t) := by
          rw [ht]
          exact @Target.urlBody_append [] after [] trail (.inr ⟨rfl, by simp⟩) htrail
        rw [first?_eq_none_iff, ways_urlBody] at hnone
        rw [← skipBlanks, hbody, hclose] at hnone
        cases hnone
    rw [first?_eq_none_iff, ways_urlBody, hempty, hsame, hclosed]
    rfl

theorem first?_url (t : Text) :
    url.first? t = (Target.urlTarget? t).map fun p => ⟨[p.1], p.2⟩ := by
  have hword := ways_word "url(".toList t
  by_cases hprefix : "url(".toList.isPrefixOf t = true
  · obtain ⟨rest, rfl⟩ := List.isPrefixOf_iff_prefix.1 hprefix
    rw [if_pos hprefix, List.drop_left] at hword
    rw [url, first?_seq_of_ways hword, first?_blanks_urlBody]
    show _ = ((Target.closeUrl? _).map fun after => (_, after)).map _
    rw [Option.map_map]
    rfl
  · have hnone : Target.urlTarget? t = none := by
      apply Target.urlTarget?_eq_none
      rintro rest rfl
      exact hprefix (List.isPrefixOf_iff_prefix.2 (List.prefix_append _ rest))
    rw [if_neg hprefix] at hword
    rw [url, first?_seq_of_ways_eq_nil hword, hnone]
    rfl

theorem first?_target (t : Text) :
    target.first? t = (Target.target? t).map fun p => ⟨[p.1], p.2⟩ := by
  have hquoted : (alt (quoted '"') (quoted '\'')).first? t =
      (Target.quotedTarget? t).map fun p => ⟨[p.1], p.2⟩ := by
    rw [first?, ways, ways_quoted_append]
    cases Target.quotedTarget? t <;> rfl
  rw [target, first?_alt, first?_url, hquoted, Target.target?]
  cases Target.urlTarget? t <;> rfl

theorem first?_statement_eq_some_iff {w : Way} :
    statement.first? t = some w ↔
      ∃ body after, w = ⟨[body], after⟩ ∧ Statement.StandsAt t body after := by
  rw [first?_statement, Option.map_eq_some_iff]
  constructor
  · rintro ⟨u, hu, rfl⟩
    exact ⟨_, _, rfl, Statement.standsAt_iff.2 ⟨u, hu, rfl⟩⟩
  · rintro ⟨body, after, rfl, hstands⟩
    obtain ⟨u, hu, htake⟩ := Statement.standsAt_iff.1 hstands
    exact ⟨u, hu, by rw [htake]⟩

theorem first?_target_eq_some_iff {w : Way} :
    target.first? t = some w ↔ ∃ x after, w = ⟨[x], after⟩ ∧ Target.Names t x after := by
  rw [first?_target, Option.map_eq_some_iff]
  constructor
  · rintro ⟨⟨x, after⟩, h, rfl⟩
    exact ⟨x, after, rfl, Target.target?_eq_some_iff.1 h⟩
  · rintro ⟨x, after, rfl, hnames⟩
    exact ⟨(x, after), Target.target?_eq_some_iff.2 hnames, rfl⟩

/-- The newline behind the comma belongs to the body, the one in front of the semicolon ends it. -/
example : statement.first? "@import a,\n b\n;".toList = some ⟨["a,\n b".toList], "\n;".toList⟩ := by
  decide +kernel

end Pattern

namespace Stylesheet

/-- **The readers find the leftmost matches of the two patterns.**  The references of a source are
    the targets of the bodies of its statements.  The bodies are those of the leftmost statements,
    and a statement stands just where its pattern matches, with the body that the pattern reports.
    The targets of a body are the leftmost ones, likewise, or the bare words of a body without
    any. -/
theorem importReferences_leftmost :
    (∀ source, importReferences source =
      (((Statement.bodies (stripComments source)).flatMap Target.ofBody).filter
        (!·.isEmpty)).eraseDups) ∧
    (∀ t bs, Statement.bodies t = bs ↔ Leftmost Statement.StandsAt t bs) ∧
    (∀ t w, Pattern.statement.first? t = some w ↔
      ∃ body after, w = ⟨[body], after⟩ ∧ Statement.StandsAt t body after) ∧
    (∀ body xs, Target.ofBody body = xs ↔ Target.Named body xs) ∧
    (∀ t w, Pattern.target.first? t = some w ↔
      ∃ x after, w = ⟨[x], after⟩ ∧ Target.Names t x after) :=
  ⟨fun _ => rfl, fun _ _ => Statement.bodies_eq_iff, fun _ _ => Pattern.first?_statement_eq_some_iff,
    fun _ _ => Target.ofBody_eq_iff, fun _ _ => Pattern.first?_target_eq_some_iff⟩

end Stylesheet
end SassImports
