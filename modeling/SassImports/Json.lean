/-
  SassImports/Json.lean
  =====================
  JSON values with natural numbers only, and their printed forms. Fields are printed in the order in
  which they stand.

    * `quote` writes a text with the short escapes, `\u` and four digits for the other control
      characters, and everything else as it is;
    * `render` prints a value under a `Layout`: `compact` on one line without blanks, `pretty` with a
      line for each item, two blanks of indentation a level, and empty brackets closed at once.
-/
import SassImports.Text

namespace SassImports

inductive Json where
  | null
  | number (value : Nat)
  | text (value : Text)
  | array (items : List Json)
  | object (fields : List (Text × Json))

namespace Json

/-- How a text fails to be the value that is asked for. -/
inductive Fault where
  | notJson
  /-- It is JSON so far, but not such a value. -/
  | wrongValue
  | endOfText
  deriving DecidableEq, Repr

/-! ### Quoted texts -/

/-- The character as it is written between quotes. -/
def escape (c : Char) : Text :=
  if c = '"' then ['\\', '"']
  else if c = '\\' then ['\\', '\\']
  else if c = '\x08' then ['\\', 'b']
  else if c = '\t' then ['\\', 't']
  else if c = '\n' then ['\\', 'n']
  else if c = '\x0c' then ['\\', 'f']
  else if c = '\r' then ['\\', 'r']
  else if c.toNat < 0x20 then
    ['\\', 'u', '0', '0', Nat.digitChar (c.toNat / 16), Nat.digitChar (c.toNat % 16)]
  else [c]

def quote (t : Text) : Text := '"' :: t.flatMap escape ++ ['"']

/-! ### Layouts -/

/-- What a printed value has between its parts. -/
structure Layout where
  /-- The text before an item or a closing bracket, by the level it stands on. -/
  lineBreak : Nat → Text
  colon : Text

/-- One line without blanks. -/
def Layout.compact : Layout := ⟨fun _ => [], [':']⟩

/-- A line for each item, two blanks of indentation a level. -/
def Layout.pretty : Layout := ⟨fun level => '\n' :: List.replicate (2 * level) ' ', [':', ' ']⟩

/-! ### Printing -/

mutual
def render (l : Layout) (level : Nat) : Json → Text
  | .null => "null".toList
  | .number n => Nat.toDigits 10 n
  | .text t => quote t
  | .array items =>
    if items.isEmpty then ['[', ']']
    else '[' :: renderItems l (level + 1) items ++ l.lineBreak level ++ [']']
  | .object fields =>
    if fields.isEmpty then ['{', '}']
    else '{' :: renderFields l (level + 1) fields ++ l.lineBreak level ++ ['}']

def renderItems (l : Layout) (level : Nat) : List Json → Text
  | [] => []
  | [item] => l.lineBreak level ++ render l level item
  | item :: next :: items =>
    l.lineBreak level ++ render l level item ++ ',' :: renderItems l level (next :: items)

def renderFields (l : Layout) (level : Nat) : List (Text × Json) → Text
  | [] => []
  | [(key, value)] => l.lineBreak level ++ quote key ++ l.colon ++ render l level value
  | (key, value) :: next :: fields =>
    l.lineBreak level ++ quote key ++ l.colon ++ render l level value ++
      ',' :: renderFields l level (next :: fields)
end

def compact (j : Json) : Text := j.render .compact 0

def pretty (j : Json) : Text := j.render .pretty 0

end Json
end SassImports
