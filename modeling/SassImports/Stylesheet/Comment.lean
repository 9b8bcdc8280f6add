/-
  SassImports/Stylesheet/Comment.lean
  ===================================
  Comments of a stylesheet. A scanner goes over the source once, one character at a time; it knows
  whether it stands in code, in a string, in the body of `url(...)` or in a comment (`Mode`), and
  what it keeps is the source without comments.

    * Strings and `url(...)` bodies hold no comments; a string may stand inside a `url(...)` body.
    * A block comment ends at the first `*/` that does not share its star with the opening.
    * A line comment ends before the newline, so that lines stay apart.

  `strip` is the text that is kept and `endMode` the mode after the last character; a source on
  which the scanner ends in code can be continued by any text.
-/
import SassImports.Text

namespace SassImports.Stylesheet.Comment

/-! ### Modes -/

/-- What surrounds a string: code, or the body of `url(...)`. -/
inductive Ground where
  | code
  | url
  deriving DecidableEq, Repr

inductive Mode where
  /-- Outside of strings and comments. -/
  | plain (ground : Ground)
  /-- In a string that `quote` ends. -/
  | quoted (ground : Ground) (quote : Char)
  /-- After a backslash in such a string. -/
  | escaped (ground : Ground) (quote : Char)
  /-- Before the star that opens a block comment. -/
  | opening
  /-- In a block comment, not after a star. -/
  | block
  | star
  | line
  deriving DecidableEq, Repr

/-- Whether the text before a parenthesis, nearest character first, makes it open a `url(...)`. -/
def endsInUrl (before : Text) : Bool := ['l', 'r', 'u'].isPrefixOf before

/-- The mode after `c`, and whether `c` is kept. `before` is the source up to `c`, nearest
    character first, and `next?` the character after `c`. -/
def Mode.step (before : Text) (c : Char) (next? : Option Char) : Mode → Mode × Bool
  | .plain ground =>
    if c = '"' ∨ c = '\'' then (.quoted ground c, true)
    else match ground with
      | .url => (if c = ')' then .plain .code else .plain .url, true)
      | .code =>
        if c = '(' ∧ endsInUrl before then (.plain .url, true)
        else if c = '/' ∧ next? = some '*' then (.opening, false)
        else if c = '/' ∧ next? = some '/' then (.line, false)
        else (.plain .code, true)
  | .quoted ground quote =>
    (if c = '\\' then .escaped ground quote else if c = quote then .plain ground
      else .quoted ground quote, true)
  | .escaped ground quote => (.quoted ground quote, true)
  | .opening => (.block, false)
  | .block => (if c = '*' then .star else .block, false)
  | .star => (if c = '/' then .plain .code else if c = '*' then .star else .block, false)
  | .line => if c = '\n' then (.plain .code, true) else (.line, false)

/-! ### The scan -/

/-- What is kept of a text that is scanned from a mode on, after `before`. -/
def strip (mode : Mode) (before : Text) : Text → Text
  | [] => []
  | c :: rest =>
    let (next, kept) := mode.step before c rest.head?
    if kept then c :: strip next (c :: before) rest else strip next (c :: before) rest

/-- The mode at the end of a text that is scanned from a mode on, after `before`. -/
def endMode (mode : Mode) (before : Text) : Text → Mode
  | [] => mode
  | c :: rest => endMode (mode.step before c rest.head?).1 (c :: before) rest

end SassImports.Stylesheet.Comment

namespace SassImports.Stylesheet

def stripComments (source : Text) : Text := Comment.strip (.plain .code) [] source

end SassImports.Stylesheet
