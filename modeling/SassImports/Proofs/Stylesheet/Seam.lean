/-
  SassImports/Proofs/Stylesheet/Seam.lean
  =======================================
  Sources put together.  The comment scanner looks one character ahead and three characters behind,
  and both reach over a seam between two texts.  Where neither sees anything there, each text is
  scanned as if it stood alone.

    * `strip_append`: looking ahead matters only for a slash at the end of the first text;
    * `strip_forget`: looking behind ends at a character that is not a letter of `url`;
    * `stripComments_around`: hence a source that ends in code can be continued by whole pieces;
    * `importReferences_comment`: the text of a comment is such a piece, whatever it says.
-/
import SassImports.Proofs.Stylesheet.Strip
import SassImports.Stylesheet.Import

namespace SassImports.Stylesheet

namespace Comment

variable {mode : Mode} {before t rest : Text} {c : Char}

/-! ### Looking ahead -/

/-- A slash at the end of the first text does not open a comment with the second one. -/
def Seam (t rest : Text) : Prop :=
  t.getLast? = some '/' → ∀ c ∈ rest.head?, c ≠ '*' ∧ c ≠ '/'

theorem Seam.tail (h : Seam (c :: t) rest) : Seam t rest := by
  intro hlast
  apply h
  rw [List.getLast?_cons, hlast]
  rfl

theorem step_of_apart {next? : Option Char} (h : c = '/' → ∀ d ∈ next?, d ≠ '*' ∧ d ≠ '/') :
    mode.step before c next? = mode.step before c none := by
  match mode with
  | .plain .code =>
    by_cases hc : c = '/'
    · have hstar : next? ≠ some '*' := fun hnext => (h hc _ hnext).1 rfl
      have hline : next? ≠ some '/' := fun hnext => (h hc _ hnext).2 rfl
      simp [Mode.step, hstar, hline]
    · simp [Mode.step, hc]
  | .plain .url | .quoted .. | .escaped .. | .opening | .block | .star | .line => rfl

/-- At a seam the scanner sees ahead what it sees at the end of the first text. -/
theorem Seam.step_eq (h : Seam (c :: t) rest) :
    mode.step before c (t ++ rest).head? = mode.step before c t.head? := by
  cases t with
  | nil =>
    apply step_of_apart
    rintro rfl
    exact h rfl
  | cons d t => rfl

theorem strip_append (h : Seam t rest) (mode : Mode) (before : Text) :
    strip mode before (t ++ rest) =
      strip mode before t ++ strip (endMode mode before t) (t.reverse ++ before) rest := by
  induction t generalizing mode before with
  | nil => rfl
  | cons c t ih =>
    obtain ⟨next, kept, hstep⟩ : ∃ next kept, mode.step before c t.head? = (next, kept) :=
      ⟨_, _, rfl⟩
    have hstep' : mode.step before c (t ++ rest).head? = (next, kept) := h.step_eq.trans hstep
    have hrest := ih h.tail next (c :: before)
    rw [endMode, hstep, List.cons_append, List.reverse_cons, List.append_assoc]
    cases kept with
    | true => rw [strip_keep hstep', strip_keep hstep, hrest]; rfl
    | false => rw [strip_drop hstep', strip_drop hstep, hrest]; rfl

/-! ### Looking behind -/

theorem endsInUrl_append (hc : c ∉ "url".toList) (t before : Text) :
    endsInUrl (t ++ c :: before) = endsInUrl t := by
  have hne : c ≠ 'u' ∧ c ≠ 'r' ∧ c ≠ 'l' := by simpa using hc
  match t with
  | [] | [_] | [_, _] => simp [endsInUrl, List.isPrefixOf, Ne.symm, hne]
  | _ :: _ :: _ :: _ => simp [endsInUrl, List.isPrefixOf]

/-- What stands before a character that is no letter of `url` does not count, nor does the
    character. -/
theorem strip_forget (hc : c ∉ "url".toList) (mode : Mode) (behind before t : Text) :
    strip mode (behind ++ c :: before) t = strip mode behind t := by
  induction t generalizing mode behind with
  | nil => rfl
  | cons d t ih =>
    have hstep : mode.step (behind ++ c :: before) d t.head? = mode.step behind d t.head? := by
      match mode with
      | .plain .code => simp only [Mode.step, endsInUrl_append hc]
      | .plain .url | .quoted .. | .escaped .. | .opening | .block | .star | .line => rfl
    rw [strip, strip, hstep]
    simp only [← List.cons_append, ih]

end Comment

open Comment (Leaves Seam)

variable {p s c c' kept piece : Text} {last : Char}

/-! ### Sources that end in code -/

/-- The scanner ends outside of strings, bodies of `url(...)` and comments. -/
def EndsInCode (source : Text) : Prop :=
  Comment.endMode (.plain .code) [] source = .plain .code

instance (source : Text) : Decidable (EndsInCode source) :=
  inferInstanceAs (Decidable (Comment.endMode (.plain .code) [] source = .plain .code))

/-- A piece between two sources that is scanned from code to code and ends in no letter of `url`
    parts them: each is scanned as if it stood alone. -/
theorem stripComments_around (hp : EndsInCode p) (hseam : Seam p (piece ++ [last] ++ s))
    (hpiece : Leaves (piece ++ [last]) kept s) (hlast : last ∉ "url".toList) :
    stripComments (p ++ (piece ++ [last]) ++ s) = stripComments p ++ kept ++ stripComments s := by
  have hbehind : (piece ++ [last]).reverse ++ (p.reverse ++ []) =
      [] ++ last :: (piece.reverse ++ p.reverse) := by
    simp
  rw [List.append_assoc, stripComments, Comment.strip_append hseam, hp, hpiece, hbehind,
    Comment.strip_forget hlast, ← List.append_assoc]
  rfl

/-! ### Comments -/

theorem seam_of_getLast? (h : p.getLast? ≠ some '/') (rest : Text) : Seam p rest :=
  fun hlast => absurd hlast h

/-- Of a block comment nothing is left, whatever it says. -/
theorem stripComments_block (hp : EndsInCode p) (hslash : p.getLast? ≠ some '/')
    (hc : ¬"*/".toList <:+: c) (s : Text) :
    stripComments (p ++ "/*".toList ++ c ++ "*/".toList ++ s) =
      stripComments p ++ stripComments s := by
  have hpiece : "/*".toList ++ c ++ "*/".toList = "/*".toList ++ c ++ ['*'] ++ ['/'] := by
    simp
  have hleaves : Leaves ("/*".toList ++ c ++ "*/".toList) [] s := Leaves.block hc
  rw [hpiece] at hleaves
  have h := stripComments_around hp (seam_of_getLast? hslash _) hleaves (by decide)
  simpa using h

/-- Of a line comment the newline is left, whatever it says. -/
theorem stripComments_line (hp : EndsInCode p) (hslash : p.getLast? ≠ some '/')
    (hc : '\n' ∉ c) (s : Text) :
    stripComments (p ++ "//".toList ++ c ++ ['\n'] ++ s) =
      stripComments p ++ '\n' :: stripComments s := by
  have hleaves : Leaves ("//".toList ++ c ++ ['\n']) ['\n'] s := Leaves.line hc
  have h := stripComments_around hp (seam_of_getLast? hslash _) hleaves (by decide)
  simpa using h

/-- **What a comment says never matters.**  Behind a source that ends in code and not in a slash, a
    block comment may be exchanged for any other one, and so may a line comment. -/
theorem importReferences_comment (hp : EndsInCode p) (hslash : p.getLast? ≠ some '/')
    (s c c' : Text) :
    (¬"*/".toList <:+: c → ¬"*/".toList <:+: c' →
      importReferences (p ++ "/*".toList ++ c ++ "*/".toList ++ s) =
        importReferences (p ++ "/*".toList ++ c' ++ "*/".toList ++ s)) ∧
    ('\n' ∉ c → '\n' ∉ c' →
      importReferences (p ++ "//".toList ++ c ++ ['\n'] ++ s) =
        importReferences (p ++ "//".toList ++ c' ++ ['\n'] ++ s)) := by
  constructor
  · intro hc hc'
    rw [importReferences, importReferences, stripComments_block hp hslash hc,
      stripComments_block hp hslash hc']
  · intro hc hc'
    rw [importReferences, importReferences, stripComments_line hp hslash hc,
      stripComments_line hp hslash hc']

/-- Behind the comment a parenthesis opens no `url(...)`, although its name stands before it. -/
theorem importReferences_comment_url :
    EndsInCode "@import 'a', url".toList ∧ "@import 'a', url".toList.getLast? ≠ some '/' ∧
      ¬"*/".toList <:+: "it's".toList ∧ ¬"*/".toList <:+: "/ @import 'x'; url(*".toList ∧
      importReferences ("@import 'a', url".toList ++ "/*".toList ++ "it's".toList ++
          "*/".toList ++ "(b//c);\n@import 'd';".toList) =
        importReferences ("@import 'a', url".toList ++ "/*".toList ++
          "/ @import 'x'; url(*".toList ++ "*/".toList ++ "(b//c);\n@import 'd';".toList) ∧
      '\n' ∉ "it's".toList ∧ '\n' ∉ "/ @import 'x'; url(*".toList ∧
      importReferences ("@import 'a', url".toList ++ "//".toList ++ "it's".toList ++
          ['\n'] ++ "(b//c);\n@import 'd';".toList) =
        importReferences ("@import 'a', url".toList ++ "//".toList ++
          "/ @import 'x'; url(*".toList ++ ['\n'] ++ "(b//c);\n@import 'd';".toList) := by
  have hp : EndsInCode "@import 'a', url".toList := by decide
  have hslash : "@import 'a', url".toList.getLast? ≠ some '/' := by decide
  have hblock : ¬"*/".toList <:+: "it's".toList := by decide
  have hblock' : ¬"*/".toList <:+: "/ @import 'x'; url(*".toList := by decide +kernel
  have hline : '\n' ∉ "it's".toList := by decide
  have hline' : '\n' ∉ "/ @import 'x'; url(*".toList := by decide
  obtain ⟨hsame, hsame'⟩ := importReferences_comment hp hslash "(b//c);\n@import 'd';".toList
    "it's".toList "/ @import 'x'; url(*".toList
  exact ⟨hp, hslash, hblock, hblock', hsame hblock hblock', hline, hline', hsame' hline hline'⟩

end SassImports.Stylesheet
