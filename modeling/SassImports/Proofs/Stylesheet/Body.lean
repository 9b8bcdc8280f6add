/-
  SassImports/Proofs/Stylesheet/Body.lean
  =======================================
  Where the body of an import statement ends, and which targets are seen in it.

    * `Within`: the text stands inside a body, which a newline after it would end or not;
      `takeBody_of_within` and `bodies_of_within` cut the body off;
    * `afterKeyword?_eq_some_iff`: a body begins behind the keyword and the whole gap after it;
    * `target?_string`, `target?_url` and `target?_urlString` read one target;
    * `quotedTargets_of_plain` and `bareTargets_cons` read a body without quotes or parentheses.
-/
import SassImports.Stylesheet.Statement
import SassImports.Stylesheet.Target

namespace SassImports.Stylesheet

open Text (isBlank skipBlanks)

theorem ne_of_isBlank {c d : Char} (hc : isBlank c = true) (hd : isBlank d = false) : c ≠ d := by
  rintro rfl
  rw [hc] at hd
  cases hd

theorem of_mem_takeWhile {p : Char → Bool} {t : Text} {c : Char} (h : c ∈ t.takeWhile p) :
    p c = true :=
  List.all_eq_true.1 List.all_takeWhile c h

theorem of_head?_dropWhile {p : Char → Bool} {t : Text} {c : Char}
    (h : c ∈ (t.dropWhile p).head?) : p c = false := by
  have hnot := List.head?_dropWhile_not p t
  rw [Option.mem_def.1 h] at hnot
  exact hnot

theorem eq_of_dropWhile_ne {t rest : Text} {c d : Char} (h : t.dropWhile (· ≠ c) = d :: rest) :
    d = c := by
  have hstop := of_head?_dropWhile (Option.mem_def.2 (congrArg List.head? h))
  simpa using hstop

/-! ### Statements -/

namespace Statement

variable {afterComma afterComma' : Bool} {t t' rest : Text} {c : Char}

theorem isEnd_iff : isEnd c = true ↔ c = ';' ∨ c = '{' ∨ c = '}' := by
  simp [isEnd, or_assoc]

/-- A text inside a body.  The first flag says whether only blanks stand between the last comma and
    the text, the second whether only blanks stand between the last comma and its end. -/
inductive Within : Bool → Text → Bool → Prop where
  | nil {afterComma : Bool} : Within afterComma [] afterComma
  | cons {afterComma afterComma' : Bool} {c : Char} {t : Text} (inside : isEnd c = false)
      (newline : c = '\n' → afterComma = true)
      (more : Within (c = ',' || (afterComma && isBlank c)) t afterComma') :
      Within afterComma (c :: t) afterComma'

theorem Within.append {last : Bool} (h : Within afterComma t afterComma')
    (h' : Within afterComma' t' last) : Within afterComma (t ++ t') last := by
  induction h with
  | nil => exact h'
  | cons inside newline _ ih => exact .cons inside newline (ih h')

theorem takeBody_of_within (h : Within afterComma t afterComma') (rest : Text) :
    takeBody afterComma (t ++ rest) =
      (t ++ (takeBody afterComma' rest).1, (takeBody afterComma' rest).2) := by
  induction h with
  | nil => rfl
  | @cons afterComma _ c t inside newline _ ih =>
    have hcond : ¬(isEnd c || (c = '\n' && !afterComma)) = true := by
      simpa [inside] using newline
    rw [List.cons_append, takeBody, if_neg hcond, ih]
    rfl

theorem within_blanks (hblank : ∀ c ∈ t, isBlank c = true) (hline : '\n' ∈ t → afterComma = true) :
    Within afterComma t afterComma := by
  induction t with
  | nil => exact .nil
  | cons c t ih =>
    obtain ⟨hc, ht⟩ := List.forall_mem_cons.1 hblank
    have hne : ∀ d, isBlank d = false → c ≠ d := fun _ => ne_of_isBlank hc
    have hinside : isEnd c = false := by
      simp [isEnd, hne ';' rfl, hne '{' rfl, hne '}' rfl]
    have hcomma : c ≠ ',' := hne ',' rfl
    have hflag : (c = ',' || (afterComma && isBlank c)) = afterComma := by
      simp [hcomma, hc]
    refine .cons hinside (fun hnewline => hline (hnewline ▸ List.mem_cons_self)) ?_
    rw [hflag]
    exact ih ht fun hmem => hline (List.mem_cons_of_mem _ hmem)

theorem within_comma : Within afterComma [','] true :=
  .cons rfl (fun hnewline => absurd hnewline (by decide)) (by simpa using .nil)

/-- A text in one line that does not end in a comma or a blank. -/
theorem within_of_getLast {last : Char} (hplain : ∀ c ∈ t ++ [last], isEnd c = false ∧ c ≠ '\n')
    (hblank : isBlank last = false) (hcomma : last ≠ ',') :
    Within afterComma (t ++ [last]) false := by
  induction t generalizing afterComma with
  | nil =>
    obtain ⟨hinside, hline⟩ := hplain last List.mem_cons_self
    refine .cons hinside (fun hnewline => absurd hnewline hline) ?_
    rw [hblank, Bool.and_false, Bool.or_false, decide_eq_false hcomma]
    exact .nil
  | cons d t ih =>
    obtain ⟨hinside, hline⟩ := hplain d List.mem_cons_self
    refine .cons hinside (fun hnewline => absurd hnewline hline) ?_
    exact ih fun c hc => hplain c (List.mem_cons_of_mem _ hc)

/-! A search for the keyword passes over everything that does not begin with its first character. -/

theorem bodies_nil : bodies [] = [] := by
  rw [bodies]

theorem bodies_cons_of_none (h : afterKeyword? (c :: t) = none) : bodies (c :: t) = bodies t := by
  rw [bodies]
  split
  · next h' => rw [h] at h'; cases h'
  · rfl

theorem bodies_of_some (h : afterKeyword? t = some rest) :
    bodies t = (takeBody false rest).1 :: bodies (takeBody false rest).2 := by
  cases t with
  | nil => cases h
  | cons c t =>
    rw [bodies]
    split
    · next h' => rw [h] at h'; cases h'; rfl
    · next h' => rw [h] at h'; cases h'

theorem afterKeyword?_eq_none (hc : c ≠ '@') : afterKeyword? (c :: t) = none := by
  have hprefix : ¬keyword.isPrefixOf (c :: t) = true := by
    intro h
    have hkeyword : '@' :: "import".toList <+: c :: t := List.isPrefixOf_iff_prefix.1 h
    exact hc (List.cons_prefix_cons.1 hkeyword).1.symm
  rw [afterKeyword?, if_neg hprefix]

theorem bodies_append (h : ∀ c ∈ t, c ≠ '@') (rest : Text) : bodies (t ++ rest) = bodies rest := by
  induction t with
  | nil => rfl
  | cons c t ih =>
    obtain ⟨hc, ht⟩ := List.forall_mem_cons.1 h
    rw [List.cons_append, bodies_cons_of_none (afterKeyword?_eq_none hc), ih ht]

theorem afterKeyword?_eq_some {gap : Text} (hne : gap ≠ []) (hgap : ∀ c ∈ gap, isGap c = true)
    (hrest : ∀ c ∈ rest.head?, isGap c = false) :
    afterKeyword? (keyword ++ (gap ++ rest)) = some rest := by
  have hdrop : rest.dropWhile isGap = rest := by
    cases rest with
    | nil => rfl
    | cons c rest => rw [List.dropWhile_cons_of_neg (by simpa using hrest c rfl)]
  obtain ⟨c, gap, rfl⟩ := List.exists_cons_of_ne_nil hne
  obtain ⟨hc, hgap⟩ := List.forall_mem_cons.1 hgap
  have hprefix : keyword.isPrefixOf (keyword ++ (c :: gap ++ rest)) = true :=
    List.isPrefixOf_iff_prefix.2 (List.prefix_append _ _)
  rw [afterKeyword?, hprefix, List.drop_left]
  show (if isGap c = true then some ((gap ++ rest).dropWhile isGap) else none) = _
  rw [if_pos hc, List.dropWhile_append_of_pos hgap, hdrop]

theorem afterKeyword?_eq_some_iff : afterKeyword? t = some rest ↔
    ∃ gap : Text, gap ≠ [] ∧ (∀ c ∈ gap, isGap c = true) ∧ (∀ c ∈ rest.head?, isGap c = false) ∧
      t = keyword ++ (gap ++ rest) := by
  constructor
  · intro h
    unfold afterKeyword? at h
    split at h
    · next hprefix =>
      obtain ⟨u, rfl⟩ := List.isPrefixOf_iff_prefix.1 hprefix
      rw [List.drop_left] at h
      split at h
      · next c u =>
        split at h
        · next hc =>
          obtain rfl := Option.some.inj h
          refine ⟨c :: u.takeWhile isGap, List.cons_ne_nil _ _, ?_, ?_, ?_⟩
          · exact List.forall_mem_cons.2 ⟨hc, fun d hd => of_mem_takeWhile hd⟩
          · exact fun d hd => of_head?_dropWhile hd
          · rw [List.cons_append, List.takeWhile_append_dropWhile]
        · cases h
      · cases h
    · cases h
  · rintro ⟨gap, hne, hgap, hrest, rfl⟩
    exact afterKeyword?_eq_some hne hgap hrest

/-- A statement whose body ends before a semicolon or a newline. -/
theorem bodies_of_within {gap body : Text} {terminator : Char} (hne : gap ≠ [])
    (hgap : ∀ c ∈ gap, isGap c = true) (hhead : ∀ c ∈ body.head?, isGap c = false)
    (hbody : Within false body false) (hnonempty : body ≠ [])
    (hterminator : terminator = ';' ∨ terminator = '\n') (rest : Text) :
    bodies (keyword ++ (gap ++ (body ++ terminator :: rest))) = body :: bodies rest := by
  have hafter : afterKeyword? (keyword ++ (gap ++ (body ++ terminator :: rest))) =
      some (body ++ terminator :: rest) := by
    apply afterKeyword?_eq_some hne hgap
    obtain ⟨c, body, rfl⟩ := List.exists_cons_of_ne_nil hnonempty
    exact hhead
  have hend : takeBody false (terminator :: rest) = ([], terminator :: rest) := by
    rcases hterminator with rfl | rfl <;> rfl
  have htake := takeBody_of_within hbody (terminator :: rest)
  rw [hend, List.append_nil] at htake
  have hskip : bodies (terminator :: rest) = bodies rest := by
    apply @bodies_append [terminator]
    rcases hterminator with rfl | rfl <;> simp
  rw [bodies_of_some hafter, htake, hskip]

end Statement

/-! ### Targets -/

namespace Target

variable {t rest word lead trail : Text} {c quote : Char}

theorem quotedTarget?_append (hquote : quote = '"' ∨ quote = '\'') (hplain : ∀ c ∈ t, c ≠ quote)
    (rest : Text) : quotedTarget? (quote :: t ++ [quote] ++ rest) = some (t, rest) := by
  have htake : (t ++ quote :: rest).takeWhile (· ≠ quote) = t := by
    rw [List.takeWhile_append_of_pos (by simpa using hplain)]
    simp
  have hdrop : (t ++ quote :: rest).dropWhile (· ≠ quote) = quote :: rest := by
    rw [List.dropWhile_append_of_pos (by simpa using hplain)]
    simp
  rw [List.append_assoc, List.singleton_append, List.cons_append, quotedTarget?, if_pos hquote,
    hdrop, htake]

theorem target?_string (hquote : quote = '"' ∨ quote = '\'') (hplain : ∀ c ∈ t, c ≠ quote)
    (rest : Text) : target? (quote :: t ++ [quote] ++ rest) = some (t, rest) := by
  have hurl : urlTarget? (quote :: t ++ [quote] ++ rest) = none := by
    rcases hquote with rfl | rfl <;> rfl
  rw [target?, hurl, quotedTarget?_append hquote hplain]
  rfl

theorem isUrlChar_iff :
    isUrlChar c = true ↔ c ≠ ')' ∧ c ≠ '"' ∧ c ≠ '\'' ∧ isBlank c = false := by
  simp [isUrlChar, and_assoc]

theorem skipBlanks_cons (hc : isBlank c = false) (t : Text) : skipBlanks (c :: t) = c :: t :=
  List.dropWhile_cons_of_neg (by simp [hc])

theorem target?_of_urlBody {body : Text} (hhead : skipBlanks body = body)
    (hbody : urlBody body = (t, ')' :: rest)) :
    target? ("url(".toList ++ body) = some (t, rest) := by
  have hurl : urlTarget? ("url(".toList ++ body) = some (t, rest) := by
    show ((closeUrl? (urlBody (skipBlanks body)).2).map fun after =>
      ((urlBody (skipBlanks body)).1, after)) = _
    rw [hhead, hbody]
    rfl
  rw [target?, hurl]
  rfl

theorem target?_url (hplain : ∀ c ∈ t, isUrlChar c = true) (rest : Text) :
    target? ("url(".toList ++ (t ++ ')' :: rest)) = some (t, rest) := by
  have htake : (t ++ ')' :: rest).takeWhile isUrlChar = t := by
    rw [List.takeWhile_append_of_pos hplain]
    exact List.append_nil t
  have hdrop : (t ++ ')' :: rest).dropWhile isUrlChar = ')' :: rest := by
    rw [List.dropWhile_append_of_pos hplain]
    rfl
  cases t with
  | nil => exact target?_of_urlBody (skipBlanks_cons rfl rest) rfl
  | cons c t =>
    obtain ⟨-, hdouble, hsingle, hblank⟩ := isUrlChar_iff.1 (hplain c List.mem_cons_self)
    have hquoted : quotedTarget? (c :: t ++ ')' :: rest) = none := by
      rw [List.cons_append, quotedTarget?, if_neg (not_or.2 ⟨hdouble, hsingle⟩)]
    apply target?_of_urlBody
    · exact skipBlanks_cons hblank _
    · rw [urlBody, hquoted, htake, hdrop]

theorem target?_urlString (hquote : quote = '"' ∨ quote = '\'') (hplain : ∀ c ∈ t, c ≠ quote)
    (rest : Text) :
    target? ("url(".toList ++ (quote :: t ++ [quote] ++ ')' :: rest)) = some (t, rest) := by
  have hblank : isBlank quote = false := by
    rcases hquote with rfl | rfl <;> decide
  apply target?_of_urlBody
  · exact skipBlanks_cons hblank _
  · rw [urlBody, quotedTarget?_append hquote hplain]

theorem urlTarget?_eq_none (h : ∀ rest, t ≠ "url(".toList ++ rest) : urlTarget? t = none := by
  unfold urlTarget?
  split
  · next rest => exact absurd rfl (h rest)
  · rfl

theorem target?_eq_none (hdouble : c ≠ '"') (hsingle : c ≠ '\'') (hurl : c = 'u' → '(' ∉ t) :
    target? (c :: t) = none := by
  have hquoted : quotedTarget? (c :: t) = none := by
    rw [quotedTarget?, if_neg (not_or.2 ⟨hdouble, hsingle⟩)]
  have hnone : urlTarget? (c :: t) = none := by
    apply urlTarget?_eq_none
    intro rest h
    obtain ⟨rfl, rfl⟩ : c = 'u' ∧ t = 'r' :: 'l' :: '(' :: rest := List.cons.inj h
    exact absurd (by simp) (hurl rfl)
  rw [target?, hnone, hquoted]
  rfl

/-! A search for targets -/

theorem quotedTargets_of_target {x : Text} (h : target? t = some (x, rest)) :
    quotedTargets t = x :: quotedTargets rest := by
  cases t with
  | nil => cases h
  | cons c t =>
    rw [quotedTargets]
    split
    · next h' => rw [h] at h'; cases h'; rfl
    · next h' => rw [h] at h'; cases h'

theorem quotedTargets_cons_of_none (h : target? (c :: t) = none) :
    quotedTargets (c :: t) = quotedTargets t := by
  rw [quotedTargets]
  split
  · next h' => rw [h] at h'; cases h'
  · rfl

theorem quotedTargets_append (h : ∀ c ∈ t, c ≠ '"' ∧ c ≠ '\'' ∧ c ≠ 'u') (rest : Text) :
    quotedTargets (t ++ rest) = quotedTargets rest := by
  induction t with
  | nil => rfl
  | cons c t ih =>
    obtain ⟨⟨hdouble, hsingle, hurl⟩, ht⟩ := List.forall_mem_cons.1 h
    rw [List.cons_append, quotedTargets_cons_of_none, ih ht]
    exact target?_eq_none hdouble hsingle fun hc => absurd hc hurl

theorem quotedTargets_of_plain (h : ∀ c ∈ t, c ≠ '"' ∧ c ≠ '\'' ∧ c ≠ '(') :
    quotedTargets t = [] := by
  induction t with
  | nil => rw [quotedTargets]
  | cons c t ih =>
    obtain ⟨⟨hdouble, hsingle, -⟩, ht⟩ := List.forall_mem_cons.1 h
    rw [quotedTargets_cons_of_none, ih ht]
    exact target?_eq_none hdouble hsingle fun _ hopen => (ht _ hopen).2.2 rfl

/-! ### Bare words -/

theorem firstWord?_append (hlead : ∀ c ∈ lead, isBlank c = true) (hne : word ≠ [])
    (hword : ∀ c ∈ word, isBlank c = false) (htrail : ∀ c ∈ trail.head?, isBlank c = true) :
    Text.firstWord? (lead ++ (word ++ trail)) = some word := by
  have hskip : skipBlanks (lead ++ (word ++ trail)) = word ++ trail := by
    obtain ⟨c, word, rfl⟩ := List.exists_cons_of_ne_nil hne
    rw [skipBlanks, List.dropWhile_append_of_pos hlead]
    exact skipBlanks_cons (hword c List.mem_cons_self) _
  have htrail' : trail.takeWhile (!isBlank ·) = [] := by
    cases trail with
    | nil => rfl
    | cons c trail =>
      exact List.takeWhile_cons_of_neg (by simp [htrail c rfl])
  have htake : (word ++ trail).takeWhile (!isBlank ·) = word := by
    rw [List.takeWhile_append_of_pos (by simpa using hword), htrail', List.append_nil]
  rw [Text.firstWord?, hskip, htake]
  obtain ⟨c, word, rfl⟩ := List.exists_cons_of_ne_nil hne
  rfl

theorem bareTargets_of_notMem (h : ',' ∉ t) : bareTargets t = (Text.firstWord? t).toList := by
  rw [bareTargets, List.splitOn_eq_singleton h, List.filterMap_cons]
  cases Text.firstWord? t <;> rfl

theorem bareTargets_cons (h : ',' ∉ t) (rest : Text) :
    bareTargets (t ++ ',' :: rest) = (Text.firstWord? t).toList ++ bareTargets rest := by
  have hsplit : (t ++ ',' :: rest).splitOn ',' = t.splitOn ',' ++ rest.splitOn ',' :=
    List.splitOnP_append_cons t rest (beq_self_eq_true ',')
  rw [← bareTargets_of_notMem h, bareTargets, hsplit, List.filterMap_append]
  rfl

end Target
end SassImports.Stylesheet
