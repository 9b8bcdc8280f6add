/-
  SassImports/Stylesheet/Statement.lean
  =====================================
  Import statements of a text without comments. A statement is the keyword, at least one space or
  tab, and a body that ends before `;`, a brace or a newline, except that newlines among the blanks
  right after a comma belong to the body: a list may go on in the next line.

    * `afterKeyword?` recognises keyword and gap at the start of a text;
    * `takeBody` cuts the body off;
    * `bodies` collects the bodies from left to right, each search starting where the last body ends.
-/
import SassImports.Text.Blank

namespace SassImports.Stylesheet.Statement

open Text (isBlank)

/-! ### Keyword and gap -/

def keyword : Text := "@import".toList

/-- Whether `c` may stand between keyword and body. -/
def isGap (c : Char) : Bool := c = ' ' || c = '\t'

/-- What follows the keyword and its gap, if the text starts with them. -/
def afterKeyword? (t : Text) : Option Text :=
  if keyword.isPrefixOf t then
    match t.drop keyword.length with
    | c :: rest => if isGap c then some (rest.dropWhile isGap) else none
    | [] => none
  else none

theorem length_afterKeyword? {t rest : Text} (h : afterKeyword? t = some rest) :
    rest.length < t.length := by
  unfold afterKeyword? at h
  split at h
  · split at h
    · next c after hd =>
      split at h
      · obtain rfl := Option.some.inj h
        have h₁ := (List.dropWhile_sublist isGap (l := after)).length_le
        have h₂ := congrArg List.length hd
        simp only [List.length_drop, List.length_cons] at h₂
        omega
      · simp at h
    · simp at h
  · simp at h

/-! ### Bodies -/

/-- Whether `c` ends a body wherever it stands. -/
def isEnd (c : Char) : Bool := c = ';' || c = '{' || c = '}'

/-- The body at the start of a text and what follows it. `afterComma` says that only blanks stand
    between the last comma and here, where a newline does not end the body. -/
def takeBody (afterComma : Bool) : Text → Text × Text
  | [] => ([], [])
  | c :: rest =>
    if isEnd c || (c = '\n' && !afterComma) then ([], c :: rest)
    else
      let (body, after) := takeBody (c = ',' || (afterComma && isBlank c)) rest
      (c :: body, after)

theorem takeBody_append (afterComma : Bool) (t : Text) :
    (takeBody afterComma t).1 ++ (takeBody afterComma t).2 = t := by
  induction t generalizing afterComma with
  | nil => rfl
  | cons c rest ih =>
    unfold takeBody
    split
    · rfl
    · simp [ih]

theorem length_takeBody (afterComma : Bool) (t : Text) :
    (takeBody afterComma t).2.length ≤ t.length := by
  have h := congrArg List.length (takeBody_append afterComma t)
  rw [List.length_append] at h
  omega

def bodies : Text → List Text
  | [] => []
  | c :: rest =>
    match _ : afterKeyword? (c :: rest) with
    | some after =>
      (takeBody false after).1 :: bodies (takeBody false after).2
    | none => bodies rest
termination_by t => t.length
decreasing_by
  · exact Nat.lt_of_le_of_lt (length_takeBody false after) (length_afterKeyword? ‹_›)
  · exact Nat.lt_succ_self _

end SassImports.Stylesheet.Statement
