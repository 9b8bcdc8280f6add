/-
  SassImports/Proofs/Stylesheet/Strip.lean
  ========================================
  What the comment scanner leaves of a text that begins and ends in code: a word, a string, a
  `url(...)` or a comment.  The scanner looks one character ahead, so each fact is about a text with
  what comes after it in view; such facts are put together by `Leaves.append`.

    * `Leaves`: the text is gone through, this much is kept, and the scanner is in code again;
    * `Leaves.word`, `Leaves.string`, `Leaves.url` and `Leaves.urlString` keep everything;
    * `Leaves.block` and `Leaves.line` keep nothing of a comment but the newline that ends it.
-/
import SassImports.Stylesheet.Comment

namespace SassImports.Stylesheet.Comment

variable {mode next : Mode} {ground : Ground} {before t t' rest kept kept' : Text} {c quote : Char}

/-! ### One character -/

theorem strip_keep (h : mode.step before c rest.head? = (next, true)) :
    strip mode before (c :: rest) = c :: strip next (c :: before) rest := by
  rw [strip, h]
  rfl

theorem strip_drop (h : mode.step before c rest.head? = (next, false)) :
    strip mode before (c :: rest) = strip next (c :: before) rest := by
  rw [strip, h]
  rfl

theorem strip_cons (mode : Mode) (before : Text) (c : Char) (rest : Text) : ∃ next,
    mode.step before c rest.head? = (next, true) ∧
        strip mode before (c :: rest) = c :: strip next (c :: before) rest ∨
      mode.step before c rest.head? = (next, false) ∧
        strip mode before (c :: rest) = strip next (c :: before) rest := by
  obtain ⟨next, kept, hstep⟩ : ∃ next kept, mode.step before c rest.head? = (next, kept) :=
    ⟨_, _, rfl⟩
  cases kept with
  | true => exact ⟨next, Or.inl ⟨hstep, strip_keep hstep⟩⟩
  | false => exact ⟨next, Or.inr ⟨hstep, strip_drop hstep⟩⟩

theorem step_code {next? : Option Char} (hdouble : c ≠ '"') (hsingle : c ≠ '\'') (hopen : c ≠ '(')
    (hslash : c = '/' → ∀ d ∈ next?, d ≠ '*' ∧ d ≠ '/') :
    (Mode.plain .code).step before c next? = (.plain .code, true) := by
  by_cases hc : c = '/'
  · have hstar : next? ≠ some '*' := fun h => (hslash hc _ h).1 rfl
    have hline : next? ≠ some '/' := fun h => (hslash hc _ h).2 rfl
    simp [Mode.step, hdouble, hsingle, hopen, hstar, hline]
  · simp [Mode.step, hdouble, hsingle, hopen, hc]

/-! ### Texts in code -/

/-- In code, and with `rest` after it, the text is scanned to its end, where the scanner is in code
    again; so much of it is kept. -/
def Leaves (t kept rest : Text) : Prop :=
  ∀ before, strip (.plain .code) before (t ++ rest) =
    kept ++ strip (.plain .code) (t.reverse ++ before) rest

theorem Leaves.nil : Leaves [] [] rest := fun _ => rfl

theorem Leaves.append (h : Leaves t kept (t' ++ rest)) (h' : Leaves t' kept' rest) :
    Leaves (t ++ t') (kept ++ kept') rest := by
  intro before
  rw [List.append_assoc, h, h', List.append_assoc, List.reverse_append, List.append_assoc]

/-- Code without quotes, parentheses and openings of comments. -/
theorem Leaves.code (hplain : ∀ c ∈ t, c ≠ '"' ∧ c ≠ '\'' ∧ c ≠ '(')
    (hslash : ∀ s s', t = s ++ '/' :: s' → ∀ d ∈ (s' ++ rest).head?, d ≠ '*' ∧ d ≠ '/') :
    Leaves t t rest := by
  intro before
  induction t generalizing before with
  | nil => rfl
  | cons c t ih =>
    obtain ⟨⟨hdouble, hsingle, hopen⟩, hplain⟩ := List.forall_mem_cons.1 hplain
    have hstep : (Mode.plain .code).step before c (t ++ rest).head? = (.plain .code, true) := by
      apply step_code hdouble hsingle hopen
      rintro rfl
      exact hslash [] t rfl
    have hrest := ih hplain (fun s s' hs => hslash (c :: s) s' (by rw [hs]; rfl)) (c :: before)
    rw [List.cons_append, strip_keep hstep, hrest, List.reverse_cons, List.append_assoc]
    rfl

theorem Leaves.plain (hplain : ∀ c ∈ t, c ≠ '"' ∧ c ≠ '\'' ∧ c ≠ '(') (hslash : '/' ∉ t) :
    Leaves t t rest := by
  apply Leaves.code hplain
  rintro s s' rfl
  exact absurd (List.mem_append_right s List.mem_cons_self) hslash

/-- A word opens no comment by itself, nor with what comes after it. -/
theorem Leaves.word (hplain : ∀ c ∈ t, c ≠ '"' ∧ c ≠ '\'' ∧ c ≠ '(')
    (hblock : ¬"/*".toList <:+: t) (hline : ¬"//".toList <:+: t)
    (hrest : ∀ d ∈ rest.head?, d ≠ '*' ∧ d ≠ '/') : Leaves t t rest := by
  apply Leaves.code hplain
  rintro s s' rfl d hd
  cases s' with
  | nil => exact hrest d hd
  | cons e s' =>
    obtain rfl := Option.some.inj hd
    constructor
    · rintro rfl
      exact hblock ⟨s, s', by simp⟩
    · rintro rfl
      exact hline ⟨s, s', by simp⟩

/-! ### Strings -/

theorem strip_quoted (hplain : ∀ c ∈ t, c ≠ '\\' ∧ c ≠ quote) (hquote : quote ≠ '\\')
    (before rest : Text) :
    strip (.quoted ground quote) before (t ++ quote :: rest) =
      t ++ quote :: strip (.plain ground) (quote :: (t.reverse ++ before)) rest := by
  induction t generalizing before with
  | nil =>
    have hstep : (Mode.quoted ground quote).step before quote rest.head? =
        (.plain ground, true) := by
      simp [Mode.step, hquote]
    exact strip_keep hstep
  | cons c t ih =>
    obtain ⟨⟨hescape, hclose⟩, hplain⟩ := List.forall_mem_cons.1 hplain
    have hstep : (Mode.quoted ground quote).step before c (t ++ quote :: rest).head? =
        (.quoted ground quote, true) := by
      simp [Mode.step, hescape, hclose]
    rw [List.cons_append, strip_keep hstep, ih hplain, List.reverse_cons, List.append_assoc]
    rfl

theorem strip_string (ground : Ground) (hquote : quote = '"' ∨ quote = '\'')
    (hplain : ∀ c ∈ t, c ≠ '\\' ∧ c ≠ quote) (before rest : Text) :
    strip (.plain ground) before (quote :: t ++ quote :: rest) =
      quote :: t ++
        quote :: strip (.plain ground) (quote :: (t.reverse ++ quote :: before)) rest := by
  have hescape : quote ≠ '\\' := by
    rcases hquote with rfl | rfl <;> decide
  have hstep : (Mode.plain ground).step before quote (t ++ quote :: rest).head? =
      (.quoted ground quote, true) := by
    simp [Mode.step, hquote]
  rw [List.cons_append, strip_keep hstep, strip_quoted hplain hescape]
  rfl

theorem Leaves.string (hquote : quote = '"' ∨ quote = '\'')
    (hplain : ∀ c ∈ t, c ≠ '\\' ∧ c ≠ quote) :
    Leaves (quote :: t ++ [quote]) (quote :: t ++ [quote]) rest := by
  intro before
  have h := strip_string .code hquote hplain before rest
  simpa using h

/-! ### Bodies of `url(...)` -/

/-- After the name and its parenthesis the scanner is in the body. -/
theorem strip_openUrl (before rest : Text) :
    strip (.plain .code) before ("url(".toList ++ rest) =
      "url(".toList ++ strip (.plain .url) ("url(".toList.reverse ++ before) rest := by
  have hname : Leaves "url".toList "url".toList ('(' :: rest) :=
    Leaves.plain (by simp) (by decide)
  have hstep : (Mode.plain .code).step ("url".toList.reverse ++ before) '(' rest.head? =
      (.plain .url, true) := by
    simp [Mode.step, endsInUrl]
  show strip (.plain .code) before ("url".toList ++ '(' :: rest) = _
  rw [hname, strip_keep hstep]
  rfl

theorem strip_closeUrl (before rest : Text) :
    strip (.plain .url) before (')' :: rest) = ')' :: strip (.plain .code) (')' :: before) rest :=
  strip_keep (by simp [Mode.step])

theorem strip_unquoted (hplain : ∀ c ∈ t, c ≠ '"' ∧ c ≠ '\'' ∧ c ≠ ')') (before rest : Text) :
    strip (.plain .url) before (t ++ rest) =
      t ++ strip (.plain .url) (t.reverse ++ before) rest := by
  induction t generalizing before with
  | nil => rfl
  | cons c t ih =>
    obtain ⟨⟨hdouble, hsingle, hclose⟩, hplain⟩ := List.forall_mem_cons.1 hplain
    have hstep : (Mode.plain .url).step before c (t ++ rest).head? = (.plain .url, true) := by
      simp [Mode.step, hdouble, hsingle, hclose]
    rw [List.cons_append, strip_keep hstep, ih hplain, List.reverse_cons, List.append_assoc]
    rfl

theorem Leaves.url (hplain : ∀ c ∈ t, c ≠ '"' ∧ c ≠ '\'' ∧ c ≠ ')') :
    Leaves ("url(".toList ++ t ++ [')']) ("url(".toList ++ t ++ [')']) rest := by
  intro before
  rw [List.append_assoc, List.append_assoc, strip_openUrl, strip_unquoted hplain]
  rw [List.singleton_append, strip_closeUrl]
  simp

theorem Leaves.urlString (hquote : quote = '"' ∨ quote = '\'')
    (hplain : ∀ c ∈ t, c ≠ '\\' ∧ c ≠ quote) :
    Leaves ("url(".toList ++ (quote :: t ++ [quote]) ++ [')'])
      ("url(".toList ++ (quote :: t ++ [quote]) ++ [')']) rest := by
  intro before
  have hbody := strip_string .url hquote hplain ("url(".toList.reverse ++ before) (')' :: rest)
  rw [strip_closeUrl] at hbody
  rw [List.append_assoc, List.append_assoc, strip_openUrl]
  simpa using hbody

/-! ### Comments -/

theorem strip_line (hplain : '\n' ∉ t) (before rest : Text) :
    strip .line before (t ++ '\n' :: rest) =
      '\n' :: strip (.plain .code) ('\n' :: (t.reverse ++ before)) rest := by
  induction t generalizing before with
  | nil => exact strip_keep (by simp [Mode.step])
  | cons c t ih =>
    rw [List.mem_cons, not_or] at hplain
    have hstep : Mode.line.step before c (t ++ '\n' :: rest).head? = (.line, false) := by
      simp [Mode.step, Ne.symm hplain.1]
    rw [List.cons_append, strip_drop hstep, ih hplain.2, List.reverse_cons, List.append_assoc]
    rfl

/-- Up to the newline, which is kept. -/
theorem Leaves.line (hplain : '\n' ∉ t) : Leaves ("//".toList ++ t ++ ['\n']) ['\n'] rest := by
  intro before
  -- the second slash already stands in the comment
  have hopen : (Mode.plain .code).step before '/' ('/' :: t ++ '\n' :: rest).head? =
      (.line, false) := by
    simp [Mode.step]
  have hbody : '\n' ∉ '/' :: t := by
    simpa using hplain
  have h := (strip_drop hopen).trans (strip_line hbody ('/' :: before) rest)
  simpa using h

/-- The scanner leaves a block comment at the first star with a slash after it; here it is told
    whether it has just passed a star. -/
theorem strip_block (afterStar : Bool) (hplain : ¬"*/".toList <:+: t)
    (hstar : afterStar = true → t.head? ≠ some '/') (before rest : Text) :
    strip (if afterStar then .star else .block) before (t ++ "*/".toList ++ rest) =
      strip (.plain .code) ((t ++ "*/".toList).reverse ++ before) rest := by
  induction t generalizing afterStar before with
  | nil =>
    have hclose : strip .star ('*' :: before) ('/' :: rest) =
        strip (.plain .code) ('/' :: '*' :: before) rest :=
      strip_drop (by simp [Mode.step])
    have hstep : (if afterStar then Mode.star else .block).step before '*' ('/' :: rest).head? =
        (.star, false) := by
      cases afterStar <;> rfl
    exact (strip_drop hstep).trans hclose
  | cons c t ih =>
    have hplain' : ¬"*/".toList <:+: t := fun h => hplain (List.infix_cons h)
    have hstar' : c = '*' → t.head? ≠ some '/' := by
      rintro rfl ht
      obtain ⟨t, rfl⟩ := List.head?_eq_some_iff.1 ht
      exact hplain ⟨[], t, rfl⟩
    have hstep : (if afterStar then Mode.star else .block).step before c
        (t ++ "*/".toList ++ rest).head? = (if c = '*' then .star else .block, false) := by
      cases afterStar with
      | false => simp [Mode.step]
      | true =>
        have hc : c ≠ '/' := by
          rintro rfl
          exact hstar rfl rfl
        simp [Mode.step, hc]
    have hrest := ih (decide (c = '*')) hplain' (by simpa using hstar') (c :: before)
    rw [List.cons_append, List.cons_append, strip_drop hstep]
    simpa using hrest

theorem Leaves.block (hplain : ¬"*/".toList <:+: t) :
    Leaves ("/*".toList ++ t ++ "*/".toList) [] rest := by
  intro before
  have hopen : (Mode.plain .code).step before '/' ('*' :: (t ++ "*/".toList ++ rest)).head? =
      (.opening, false) := by
    simp [Mode.step]
  have hstar : Mode.opening.step ('/' :: before) '*' (t ++ "*/".toList ++ rest).head? =
      (.block, false) := rfl
  have hbody := strip_block false hplain (by simp) ('*' :: '/' :: before) rest
  have h := (strip_drop hopen).trans ((strip_drop hstar).trans hbody)
  simpa using h

end SassImports.Stylesheet.Comment
