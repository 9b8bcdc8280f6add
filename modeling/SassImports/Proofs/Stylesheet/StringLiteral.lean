/-
  SassImports/Proofs/Stylesheet/StringLiteral.lean
  ================================================
  Import statements in string literals.  The comment scanner knows where strings begin and end, but
  it hands on nothing but the text that is left, and the search for statements reads the strings in
  it like everything else.

    * `strip_append_of_inString`: the scanner does not look ahead from within a string;
    * `exists_append_of_strip`: what is left of a string is what the source has there;
    * `standsInString_iff`: if no keyword stands outside of strings, the statements that are found
      open in strings, with the keyword and with the gap behind it;
    * `importReferences_of_keywordsQuoted`: hence the references are the targets of such statements.
-/
import Mathlib.Data.List.Infix
import SassImports.Proofs.Stylesheet.LineEnding

namespace SassImports.Stylesheet

open Statement (keyword StandsAt isGap)

/-! ### Scanning a string -/

namespace Comment

variable {mode : Mode} {before t u w : Text} {c : Char}

/-- In a string literal, behind the quote that opens it. -/
def Mode.inString : Mode → Bool
  | .quoted .. | .escaped .. => true
  | _ => false

/-- A step into a string or within one does not depend on the next character. -/
theorem step_of_inString (h : (mode.step before c none).1.inString = true) (next? : Option Char) :
    mode.step before c next? = mode.step before c none := by
  match mode, h with
  | .plain .code, h =>
    apply step_of_apart
    rintro rfl
    cases h
  | .plain .url, _ | .quoted .., _ | .escaped .., _ => rfl
  | .opening, _ | .block, _ | .star, _ | .line, _ => rfl

/-- A text that ends in a string can be scanned by itself. -/
theorem strip_append_of_inString (h : (endMode mode before t).inString = true) (rest : Text) :
    strip mode before (t ++ rest) =
        strip mode before t ++ strip (endMode mode before t) (t.reverse ++ before) rest ∧
      endMode mode before (t ++ rest) =
        endMode (endMode mode before t) (t.reverse ++ before) rest := by
  induction t generalizing mode before with
  | nil => exact ⟨rfl, rfl⟩
  | cons c t ih =>
    obtain ⟨next, kept, hstep⟩ : ∃ next kept, mode.step before c t.head? = (next, kept) :=
      ⟨_, _, rfl⟩
    rw [endMode, hstep] at h
    have hstep' : mode.step before c (t ++ rest).head? = (next, kept) := by
      cases t with
      | nil =>
        rw [← hstep]
        apply step_of_inString
        rw [List.head?_nil] at hstep
        rw [hstep]
        exact h
      | cons d t => exact hstep
    obtain ⟨hstrip, hend⟩ := ih h
    rw [List.cons_append, endMode, endMode, hstep, hstep', hend, List.reverse_cons,
      List.append_assoc]
    refine ⟨?_, rfl⟩
    cases kept with
    | true => rw [strip_keep hstep', strip_keep hstep, hstrip]; rfl
    | false => rw [strip_drop hstep', strip_drop hstep, hstrip]; rfl

/-- Within a string everything is kept. -/
theorem strip_cons_of_inString (h : mode.inString = true) (before : Text) (c : Char) (t : Text) :
    strip mode before (c :: t) =
      c :: strip (mode.step before c t.head?).1 (c :: before) t := by
  match mode, h with
  | .quoted .., _ | .escaped .., _ => rfl

/-- A string goes on to a quote or a backslash at least. -/
theorem inString_step (h : mode.inString = true) (hproper : mode.Proper)
    (hc : c ≠ '"' ∧ c ≠ '\'' ∧ c ≠ '\\') (before : Text) (next? : Option Char) :
    (mode.step before c next?).1.inString = true := by
  match mode, h, hproper with
  | .escaped .., _, _ => rfl
  | .quoted ground quote, _, hquote =>
    have hclose : c ≠ quote := by
      rcases hquote with rfl | rfl
      · exact hc.1
      · exact hc.2.1
    simp [Mode.step, hc.2.2, hclose, Mode.inString]

theorem inString_endMode (h : mode.inString = true) (hproper : mode.Proper)
    (ht : ∀ c ∈ t, c ≠ '"' ∧ c ≠ '\'' ∧ c ≠ '\\') (before : Text) :
    (endMode mode before t).inString = true := by
  induction t generalizing mode before with
  | nil => exact h
  | cons c t ih =>
    obtain ⟨hc, ht⟩ := List.forall_mem_cons.1 ht
    exact ih (inString_step h hproper hc before _) (hproper.of_step rfl) ht (c :: before)

theorem Mode.Proper.endMode (h : mode.Proper) (before t : Text) :
    (Comment.endMode mode before t).Proper := by
  induction t generalizing mode before with
  | nil => exact h
  | cons c t ih => exact ih (h.of_step rfl) (c :: before)

/-- From within a string on, what is left up to a quote or a backslash stands in the source. -/
theorem exists_append_of_strip (h : mode.inString = true) (hproper : mode.Proper)
    (hw : ∀ c ∈ w, c ≠ '"' ∧ c ≠ '\'' ∧ c ≠ '\\') (hstrip : strip mode before t = w ++ u) :
    ∃ s, t = w ++ s := by
  induction w generalizing mode before t with
  | nil => exact ⟨t, rfl⟩
  | cons c w ih =>
    obtain ⟨hc, hmore⟩ := List.forall_mem_cons.1 hw
    cases t with
    | nil => cases hstrip
    | cons d t =>
      rw [strip_cons_of_inString h] at hstrip
      obtain ⟨rfl, hrest⟩ := List.cons.inj hstrip
      obtain ⟨s, rfl⟩ := ih (inString_step h hproper hc before _) (hproper.of_step rfl) hmore hrest
      exact ⟨s, rfl⟩

end Comment

variable {source p t body after w : Text}

def EndsInString (source : Text) : Prop :=
  (Comment.endMode (.plain .code) [] source).inString = true

instance (source : Text) : Decidable (EndsInString source) :=
  inferInstanceAs (Decidable ((Comment.endMode (.plain .code) [] source).inString = true))

theorem proper_endMode (source : Text) : (Comment.endMode (.plain .code) [] source).Proper := by
  have hcode : Comment.Mode.Proper (.plain .code) := trivial
  exact hcode.endMode [] source

theorem stripComments_append_of_endsInString (hp : EndsInString p) (t : Text) :
    stripComments (p ++ t) = stripComments p ++
      Comment.strip (Comment.endMode (.plain .code) [] p) (p.reverse ++ []) t :=
  (Comment.strip_append_of_inString hp t).1

/-- A string goes on to a quote or a backslash at least. -/
theorem EndsInString.append (hp : EndsInString p)
    (hw : ∀ c ∈ w, c ≠ '"' ∧ c ≠ '\'' ∧ c ≠ '\\') : EndsInString (p ++ w) := by
  rw [EndsInString, (Comment.strip_append_of_inString hp w).2]
  exact Comment.inString_endMode hp (proper_endMode p) hw _

/-! ### Statements in strings -/

/-- Wherever the keyword stands in the text without comments, it stands in a string literal of the
    source. -/
def KeywordsQuoted (source : Text) : Prop :=
  ∀ kept, kept ++ keyword <+: stripComments source →
    ∃ p, p <+: source ∧ stripComments p = kept ∧ EndsInString p

instance (source : Text) : Decidable (KeywordsQuoted source) :=
  decidable_of_iff (∀ kept ∈ (stripComments source).inits,
      kept ++ keyword <+: stripComments source →
        ∃ p ∈ source.inits, stripComments p = kept ∧ EndsInString p) (by
    simp only [List.mem_inits]
    constructor
    · intro h kept hkept
      exact h kept ((List.prefix_append kept keyword).trans hkept) hkept
    · intro h kept _ hkept
      exact h kept hkept)

/-- A statement that opens in a string literal of the source: the scanner is in the string when it
    comes to the keyword and stays there to the end of the gap. -/
def StandsInString (source t body after : Text) : Prop :=
  StandsAt t body after ∧ ∃ p opening s, source = p ++ (opening ++ s) ∧
    stripComments source = stripComments p ++ t ∧ t = opening ++ (body ++ after) ∧
      ∀ w, w <+: opening → EndsInString (p ++ w)

theorem ne_of_mem_opening {gap : Text} {c : Char} (hgap : ∀ c ∈ gap, isGap c = true)
    (hc : c ∈ keyword ++ gap) : c ≠ '"' ∧ c ≠ '\'' ∧ c ≠ '\\' := by
  rcases List.mem_append.1 hc with hc | hc
  · refine ⟨?_, ?_, ?_⟩ <;> rintro rfl <;> exact absurd hc (by decide)
  · refine ⟨?_, ?_, ?_⟩ <;> rintro rfl <;> cases hgap _ hc

/-- If no keyword stands outside of strings, no statement does. -/
theorem standsInString_iff (h : KeywordsQuoted source) (ht : t <:+ stripComments source) :
    StandsInString source t body after ↔ StandsAt t body after := by
  refine ⟨And.left, fun hstands => ⟨hstands, ?_⟩⟩
  obtain ⟨kept, hkept⟩ := ht
  obtain ⟨gap, -, hgap, -, rfl, -⟩ := hstands
  obtain ⟨p, ⟨rest, rfl⟩, rfl, hp⟩ := h kept ⟨gap ++ (body ++ after), by rw [← hkept]; simp⟩
  have hplain : ∀ c ∈ keyword ++ gap, c ≠ '"' ∧ c ≠ '\'' ∧ c ≠ '\\' := by
    intro c hc
    exact ne_of_mem_opening hgap hc
  have hrest := stripComments_append_of_endsInString hp rest
  rw [← hkept, List.append_cancel_left_eq, ← List.append_assoc] at hrest
  obtain ⟨s, rfl⟩ := Comment.exists_append_of_strip hp (proper_endMode p) hplain hrest.symm
  refine ⟨p, keyword ++ gap, s, rfl, hkept.symm, (List.append_assoc _ _ _).symm, ?_⟩
  intro w hw
  exact hp.append fun c hc => hplain c (hw.subset hc)

theorem suffix_of_standsAt (h : StandsAt t body after) : after <:+ t := by
  obtain ⟨gap, -, -, -, rfl, -⟩ := h
  exact ⟨keyword ++ (gap ++ body), by simp⟩

theorem importReferences_eq_nil_iff :
    importReferences source = [] ↔ ∀ x ∈ targets (stripComments source), x = [] := by
  rw [importReferences, List.eq_nil_iff_forall_not_mem]
  simp

/-- **Statements in strings are read.**  If no keyword stands outside of strings, the references are
    the targets of the leftmost statements that open in strings, and there is none only if none of
    these statements has a target that is not empty. -/
theorem importReferences_of_keywordsQuoted (h : KeywordsQuoted source) :
    ∃ bodies, Leftmost (StandsInString source) (stripComments source) bodies ∧
      importReferences source =
        ((bodies.flatMap Target.ofBody).filter (!·.isEmpty)).eraseDups ∧
      (importReferences source = [] ↔ ∀ body ∈ bodies, ∀ x ∈ Target.ofBody body, x = []) := by
  refine ⟨Statement.bodies (stripComments source), ?_, rfl, ?_⟩
  · apply (Statement.leftmost_bodies (stripComments source)).of_suffixes suffix_of_standsAt
    intro t ht body after
    exact standsInString_iff h ht
  · rw [importReferences_eq_nil_iff, targets]
    constructor
    · intro hempty body hbody x hx
      exact hempty x (List.mem_flatMap.2 ⟨body, hbody, hx⟩)
    · intro hempty x hx
      obtain ⟨body, hbody, hx⟩ := List.mem_flatMap.1 hx
      exact hempty body hbody x hx

/-- A variable whose text reads like an import statement. -/
def quotedStatement : Text := "$label: \"@import 'x'\";".toList

theorem importReferences_of_keywordsQuoted_label :
    KeywordsQuoted quotedStatement ∧
      ∃ bodies, Leftmost (StandsInString quotedStatement) (stripComments quotedStatement) bodies ∧
        importReferences quotedStatement =
          ((bodies.flatMap Target.ofBody).filter (!·.isEmpty)).eraseDups ∧
        (importReferences quotedStatement = [] ↔
          ∀ body ∈ bodies, ∀ x ∈ Target.ofBody body, x = []) := by
  have hquoted : KeywordsQuoted quotedStatement := by
    decide +kernel
  exact ⟨hquoted, importReferences_of_keywordsQuoted hquoted⟩

theorem string_is_imported :
    KeywordsQuoted quotedStatement ∧ importReferences quotedStatement = ["x".toList] := by
  decide +kernel

end SassImports.Stylesheet
