/-
  SassImports/Proofs/Stylesheet/Idempotence.lean
  ==============================================
  A text without comments.  What the comment scanner leaves is scanned once more, and everything is
  kept.  The two scans do not go through the same modes: taking a comment out of `u/**/rl(` puts a name
  together that was none before, so that the second scan may stand in the body of a `url(...)` where
  the first one stood in code.  The other way round it never does, and such a body holds no comments.

    * `Mode.Trails` ties the mode of the second scan to that of the first one, and `Mode.Recalls` what
      stands behind the two;
    * `Trails.of_drop` and `Trails.of_keep` are one character of the source, dropped or kept;
    * `strip_strip`: hence the second scan keeps every character;
    * `inComment_endMode_of_strip`: a scan that keeps a whole text stands in no comment on the way;
    * `stripComments_idempotent`: the two scans of a whole source.
-/
import SassImports.Proofs.Stylesheet.Seam

namespace SassImports.Stylesheet

namespace Comment

variable {mode mode' next : Mode} {ground ground' : Ground} {before before' t : Text} {c : Char}
  {next? next'? : Option Char} {kept : Bool}

/-! ### Comments of the first scan -/

def Mode.inComment : Mode → Bool
  | .opening | .block | .star | .line => true
  | _ => false

/-- Of a comment only the newline is kept that ends it. -/
theorem of_step_inComment (h : mode.inComment = true)
    (hstep : mode.step before c next? = (next, kept)) :
    next.inComment = true ∧ kept = false ∨ next = .plain .code ∧ c = '/' ∧ kept = false ∨
      next = .plain .code ∧ c = '\n' ∧ kept = true := by
  match mode, h with
  | .opening, _ =>
    obtain ⟨rfl, rfl⟩ := Prod.mk.inj hstep
    exact Or.inl ⟨rfl, rfl⟩
  | .block, _ =>
    obtain ⟨rfl, rfl⟩ := Prod.mk.inj hstep
    refine Or.inl ⟨?_, rfl⟩
    split <;> rfl
  | .star, _ =>
    obtain ⟨rfl, rfl⟩ := Prod.mk.inj hstep
    by_cases hc : c = '/'
    · rw [if_pos hc]
      exact Or.inr (Or.inl ⟨rfl, hc, rfl⟩)
    · refine Or.inl ⟨?_, rfl⟩
      rw [if_neg hc]
      split <;> rfl
  | .line, _ =>
    by_cases hc : c = '\n'
    · rw [Mode.step, if_pos hc] at hstep
      obtain ⟨rfl, rfl⟩ := Prod.mk.inj hstep
      exact Or.inr (Or.inr ⟨rfl, hc, rfl⟩)
    · rw [Mode.step, if_neg hc] at hstep
      obtain ⟨rfl, rfl⟩ := Prod.mk.inj hstep
      exact Or.inl ⟨rfl, rfl⟩

/-- Outside of comments only the slash that opens one is dropped. -/
theorem of_step_dropped (h : mode.inComment = false)
    (hstep : mode.step before c next? = (next, false)) :
    mode = .plain .code ∧ c = '/' ∧ next.inComment = true := by
  match mode, h with
  | .plain .code, _ =>
    simp only [Mode.step] at hstep
    split at hstep
    · cases hstep
    split at hstep
    · cases hstep
    split at hstep
    · next hopen =>
      obtain ⟨rfl, -⟩ := Prod.mk.inj hstep
      exact ⟨rfl, hopen.1, rfl⟩
    split at hstep
    · next hopen =>
      obtain ⟨rfl, -⟩ := Prod.mk.inj hstep
      exact ⟨rfl, hopen.1, rfl⟩
    · cases hstep
  | .plain .url, _ =>
    simp only [Mode.step] at hstep
    split at hstep <;> cases hstep
  | .quoted .., _ => cases hstep
  | .escaped .., _ => cases hstep

/-! ### What stands behind the two scans -/

/-- The run of letters of `url` at the end of a text that is given from its end on. -/
def urlLetters (before : Text) : Text := before.takeWhile (· ∈ "url".toList)

theorem urlLetters_cons_of_notMem (hc : c ∉ "url".toList) (before : Text) :
    urlLetters (c :: before) = [] :=
  List.takeWhile_cons_of_neg (by simpa using hc)

theorem urlLetters_cons_of_mem (hc : c ∈ "url".toList) (before : Text) :
    urlLetters (c :: before) = c :: urlLetters before :=
  List.takeWhile_cons_of_pos (by simpa using hc)

theorem endsInUrl_of_urlLetters (h : urlLetters before <+: before')
    (hurl : endsInUrl before = true) : endsInUrl before' = true := by
  obtain ⟨rest, rfl⟩ := List.isPrefixOf_iff_prefix.1 hurl
  have hletters : urlLetters (['l', 'r', 'u'] ++ rest) = ['l', 'r', 'u'] ++ urlLetters rest := by
    simp [urlLetters]
  rw [hletters] at h
  exact List.isPrefixOf_iff_prefix.2 ((List.prefix_append _ _).trans h)

/-- Outside of comments the second scan has the letters behind it that the first one has. -/
def Mode.Recalls (mode : Mode) (before before' : Text) : Prop :=
  mode.inComment = false → urlLetters before <+: before'

theorem Mode.Recalls.of_keep (h : mode.Recalls before before')
    (hstep : mode.step before c next? = (next, true)) :
    next.Recalls (c :: before) (c :: before') := by
  intro _
  by_cases hc : c ∈ "url".toList
  · rw [urlLetters_cons_of_mem hc]
    refine List.cons_prefix_cons.2 ⟨rfl, h ?_⟩
    rw [Bool.eq_false_iff]
    intro hcomment
    obtain ⟨-, hkept⟩ | ⟨-, -, hkept⟩ | ⟨-, rfl, -⟩ := of_step_inComment hcomment hstep
    · cases hkept
    · cases hkept
    · exact absurd hc (by decide)
  · rw [urlLetters_cons_of_notMem hc]
    exact List.nil_prefix

theorem Mode.Recalls.of_drop (hstep : mode.step before c next? = (next, false)) :
    next.Recalls (c :: before) before' := by
  intro hnext
  cases hcomment : mode.inComment with
  | false =>
    rw [(of_step_dropped hcomment hstep).2.2] at hnext
    cases hnext
  | true =>
    obtain ⟨hinside, -⟩ | ⟨-, rfl, -⟩ | ⟨-, -, hkept⟩ := of_step_inComment hcomment hstep
    · rw [hinside] at hnext
      cases hnext
    · rw [urlLetters_cons_of_notMem (by decide)]
      exact List.nil_prefix
    · cases hkept

/-! ### Modes of the two scans -/

/-- Where the second scan may stand, with the mode of the first one.  They are in the same string, or
    both outside of strings; while the first one goes through a comment the second one waits.  What
    is the body of a `url(...)` for the first one is so for the second one. -/
inductive Mode.Trails : Mode → Mode → Prop where
  | plain {ground ground' : Ground} (h : ground = .url → ground' = .url) :
      Trails (.plain ground) (.plain ground')
  | quoted {ground ground' : Ground} (quote : Char) (h : ground = .url → ground' = .url) :
      Trails (.quoted ground quote) (.quoted ground' quote)
  | escaped {ground ground' : Ground} (quote : Char) (h : ground = .url → ground' = .url) :
      Trails (.escaped ground quote) (.escaped ground' quote)
  | comment {mode : Mode} (ground' : Ground) (h : mode.inComment = true) :
      Trails mode (.plain ground')

theorem Mode.Trails.of_drop (h : mode.Trails mode')
    (hstep : mode.step before c next? = (next, false)) : next.Trails mode' := by
  cases hcomment : mode.inComment with
  | false =>
    obtain ⟨rfl, -, hnext⟩ := of_step_dropped hcomment hstep
    cases h with
    | plain => exact .comment _ hnext
    | comment => exact .comment _ hnext
  | true =>
    cases h with
    | comment ground' =>
      obtain ⟨hnext, -⟩ | ⟨rfl, -, -⟩ | ⟨-, -, hkept⟩ := of_step_inComment hcomment hstep
      · exact .comment ground' hnext
      · exact .plain (by simp)
      · cases hkept
    | plain | quoted | escaped => cases hcomment

/-! ### One character outside of strings -/

def Ground.after (before : Text) (c : Char) : Ground → Ground
  | .code => if c = '(' ∧ endsInUrl before then .url else .code
  | .url => if c = ')' then .code else .url

/-- A slash that opens no comment is kept like everything else. -/
theorem step_plain (hquote : ¬(c = '"' ∨ c = '\''))
    (hslash : ground = .code → c = '/' → ∀ d ∈ next?, d ≠ '*' ∧ d ≠ '/') :
    (Mode.plain ground).step before c next? = (.plain (ground.after before c), true) := by
  obtain ⟨hdouble, hsingle⟩ := not_or.1 hquote
  cases ground with
  | url =>
    simp only [Mode.step, if_neg hquote, Ground.after]
    split <;> rfl
  | code =>
    by_cases hopen : c = '('
    · cases hurl : endsInUrl before <;> simp [Mode.step, Ground.after, hopen, hurl]
    · rw [step_code hdouble hsingle hopen (hslash rfl)]
      simp [Ground.after, hopen]

theorem apart_of_step_kept (hstep : (Mode.plain .code).step before c next? = (next, true)) :
    c = '/' → ∀ d ∈ next?, d ≠ '*' ∧ d ≠ '/' := by
  rintro rfl d hd
  obtain rfl := Option.mem_def.1 hd
  constructor
  · rintro rfl
    simp [Mode.step] at hstep
  · rintro rfl
    simp [Mode.step] at hstep

theorem Ground.after_eq_url (hground : ground = .url → ground' = .url)
    (hletters : urlLetters before <+: before') (h : ground.after before c = .url) :
    ground'.after before' c = .url := by
  cases ground with
  | url =>
    rw [hground rfl]
    exact h
  | code =>
    have hopen : c = '(' ∧ endsInUrl before = true := by
      apply Decidable.byContradiction
      intro hopen
      rw [Ground.after, if_neg hopen] at h
      cases h
    obtain ⟨rfl, hurl⟩ := hopen
    cases ground' with
    | url => rfl
    | code => rw [Ground.after, if_pos ⟨rfl, endsInUrl_of_urlLetters hletters hurl⟩]

theorem Mode.Trails.of_keep (h : mode.Trails mode') (hrecalls : mode.Recalls before before')
    (hstep : mode.step before c next? = (next, true))
    (hslash : mode = .plain .code → c = '/' → ∀ d ∈ next'?, d ≠ '*' ∧ d ≠ '/') :
    ∃ next', mode'.step before' c next'? = (next', true) ∧ next.Trails next' := by
  cases h with
  | @plain ground ground' hground =>
    by_cases hquote : c = '"' ∨ c = '\''
    · simp only [Mode.step, if_pos hquote] at hstep ⊢
      obtain ⟨rfl, -⟩ := Prod.mk.inj hstep
      exact ⟨_, rfl, .quoted c hground⟩
    · have hkept : ground = .code → c = '/' → ∀ d ∈ next?, d ≠ '*' ∧ d ≠ '/' := by
        rintro rfl
        exact apart_of_step_kept hstep
      have hslash' : ground' = .code → c = '/' → ∀ d ∈ next'?, d ≠ '*' ∧ d ≠ '/' := by
        intro hcode'
        apply hslash
        cases ground with
        | code => rfl
        | url => cases (hground rfl).symm.trans hcode'
      rw [step_plain hquote hkept] at hstep
      obtain ⟨rfl, -⟩ := Prod.mk.inj hstep
      exact ⟨_, step_plain hquote hslash', .plain (Ground.after_eq_url hground (hrecalls rfl))⟩
  | @quoted ground ground' quote hground =>
    obtain ⟨rfl, -⟩ := Prod.mk.inj hstep
    refine ⟨_, rfl, ?_⟩
    by_cases hescape : c = '\\'
    · rw [if_pos hescape, if_pos hescape]
      exact .escaped quote hground
    · rw [if_neg hescape, if_neg hescape]
      split
      · exact .plain hground
      · exact .quoted quote hground
  | escaped quote hground =>
    obtain ⟨rfl, -⟩ := Prod.mk.inj hstep
    exact ⟨_, rfl, .quoted quote hground⟩
  | comment ground' hcomment =>
    obtain ⟨-, hkept⟩ | ⟨-, -, hkept⟩ | ⟨rfl, rfl, -⟩ := of_step_inComment hcomment hstep
    · cases hkept
    · cases hkept
    · exact ⟨_, step_plain (by decide) (fun _ hc => absurd hc (by decide)), .plain (by simp)⟩

/-! ### The second scan -/

/-- A slash that was kept in code is followed by what follows it in the source. -/
theorem apart_of_strip (h : ∀ d ∈ t.head?, d ≠ '*' ∧ d ≠ '/') :
    ∀ d ∈ (strip (.plain .code) before t).head?, d ≠ '*' ∧ d ≠ '/' := by
  cases t with
  | nil => simp [strip]
  | cons c t =>
    obtain ⟨next, ⟨-, hkeep⟩ | ⟨hstep, -⟩⟩ := strip_cons (.plain .code) before c t
    · rw [hkeep]
      exact h
    · exact absurd (of_step_dropped rfl hstep).2.1 (h c rfl).2

theorem strip_strip (h : mode.Trails mode') (hrecalls : mode.Recalls before before') :
    strip mode' before' (strip mode before t) = strip mode before t := by
  induction t generalizing mode mode' before before' with
  | nil => rfl
  | cons c t ih =>
    obtain ⟨next, ⟨hstep, hkeep⟩ | ⟨hstep, hdrop⟩⟩ := strip_cons mode before c t
    · have hslash : mode = .plain .code → c = '/' →
          ∀ d ∈ (strip next (c :: before) t).head?, d ≠ '*' ∧ d ≠ '/' := by
        rintro rfl rfl
        have hapart := apart_of_step_kept hstep rfl
        rw [step_plain (by decide) fun _ _ => hapart] at hstep
        obtain ⟨rfl, -⟩ := Prod.mk.inj hstep
        exact apart_of_strip hapart
      obtain ⟨next', hstep', htrails⟩ := h.of_keep hrecalls hstep hslash
      rw [hkeep, strip_keep hstep', ih htrails (hrecalls.of_keep hstep)]
    · rw [hdrop]
      exact ih (h.of_drop hstep) (.of_drop hstep)

/-! ### Texts that are kept -/

theorem strip_sublist : (strip mode before t).Sublist t := by
  induction t generalizing mode before with
  | nil => exact List.Sublist.refl []
  | cons c t ih =>
    obtain ⟨next, ⟨-, hkeep⟩ | ⟨-, hdrop⟩⟩ := strip_cons mode before c t
    · rw [hkeep]
      exact ih.cons_cons c
    · rw [hdrop]
      exact ih.cons c

/-- A text of which everything is kept has its first character kept. -/
theorem step_of_strip_eq_self (h : strip mode before (c :: t) = c :: t) :
    ∃ next, mode.step before c t.head? = (next, true) ∧ strip next (c :: before) t = t := by
  obtain ⟨next, ⟨hstep, hkeep⟩ | ⟨-, hdrop⟩⟩ := strip_cons mode before c t
  · rw [hkeep] at h
    exact ⟨next, hstep, (List.cons.inj h).2⟩
  · rw [hdrop] at h
    have hlength : (c :: t).length ≤ t.length := h ▸ strip_sublist.length_le
    exact absurd hlength (Nat.not_succ_le_self t.length)

theorem inComment_of_step_kept (h : mode.inComment = false)
    (hstep : mode.step before c next? = (next, true)) : next.inComment = false := by
  match mode, h with
  | .plain ground, _ =>
    by_cases hquote : c = '"' ∨ c = '\''
    · simp only [Mode.step, if_pos hquote] at hstep
      obtain ⟨rfl, -⟩ := Prod.mk.inj hstep
      rfl
    · rw [step_plain hquote (by rintro rfl; exact apart_of_step_kept hstep)] at hstep
      obtain ⟨rfl, -⟩ := Prod.mk.inj hstep
      rfl
  | .quoted .., _ =>
    obtain ⟨rfl, -⟩ := Prod.mk.inj hstep
    split
    · rfl
    split <;> rfl
  | .escaped .., _ =>
    obtain ⟨rfl, -⟩ := Prod.mk.inj hstep
    rfl

/-- At the end of a text a slash opens no comment. -/
theorem step_none_kept (h : mode.inComment = false) : (mode.step before c none).2 = true := by
  match mode, h with
  | .plain ground, _ =>
    by_cases hquote : c = '"' ∨ c = '\''
    · simp only [Mode.step, if_pos hquote]
    · rw [step_plain hquote (by simp)]
  | .quoted .., _ => rfl
  | .escaped .., _ => rfl

/-- The scanner that keeps a whole text does not come into a comment in it. -/
theorem inComment_endMode_of_strip {p : Text} (hmode : mode.inComment = false)
    (h : strip mode before t = t) (hp : p <+: t) : (endMode mode before p).inComment = false := by
  induction p generalizing mode before t with
  | nil => exact hmode
  | cons c p ih =>
    obtain ⟨rest, rfl⟩ := hp
    obtain ⟨next, hstep, hrest⟩ := step_of_strip_eq_self h
    rw [endMode]
    cases p with
    | nil => exact inComment_of_step_kept hmode (Prod.ext rfl (step_none_kept hmode))
    | cons d p =>
      -- The scanner looks one character ahead, and it is the same one in the text and its beginning.
      have hnext : mode.step before c (d :: p).head? = (next, true) := hstep
      rw [hnext]
      exact ih (inComment_of_step_kept hmode hstep) hrest (List.prefix_append _ _)

end Comment

/-- Nowhere in the source does the scanner stand in a comment. -/
def CommentFree (source : Text) : Prop :=
  ∀ p, p <+: source → (Comment.endMode (.plain .code) [] p).inComment = false

/-- **Comments are taken out at once.**  What is left of a source holds no comments: a second scan
    keeps all of it and never comes into one, wherever the first scan stood at the end, and the
    references are those of the source. -/
theorem stripComments_idempotent (source : Text) :
    CommentFree (stripComments source) ∧
      stripComments (stripComments source) = stripComments source ∧
      importReferences (stripComments source) = importReferences source := by
  have hstrip : stripComments (stripComments source) = stripComments source :=
    Comment.strip_strip (.plain id) fun _ => List.nil_prefix
  refine ⟨fun p hp => Comment.inComment_endMode_of_strip rfl hstrip hp, hstrip, ?_⟩
  rw [importReferences, importReferences, hstrip]

/-- Where a comment stood in its name the second scan finds a `url(...)`, and it does not come out of
    the body again. -/
example : stripComments "u/**/rl(a; 'b' // )".toList = "url(a; 'b' ".toList ∧
    Comment.endMode (.plain .code) [] "u/**/rl(a; 'b' // )".toList = .line ∧
    Comment.endMode (.plain .code) [] "url(a; 'b' ".toList = .plain .url := by
  decide +kernel

end SassImports.Stylesheet
