/-
  SassImports/Yaml/Scalar.lean
  ============================
  The texts of YAML, in their three forms: plain, quoted and block scalars. All of them may go over
  several lines, and what stands between two runs of characters is folded (`Gap.fold`): one line break
  becomes a blank, and of more line breaks the first is dropped.

    * `prepare` checks the characters of a source and makes its line ends uniform;
    * `Cursor` is a place in a source, with its line and column;
    * `plainScalar`, `quotedScalar` and `blockScalar` read a scalar and answer the place after it.
-/
import SassImports.Text.Hexadecimal

namespace SassImports.Yaml

/-! ### Characters -/

def isAllowed (c : Char) : Bool :=
  c = '\t' || c = '\n' || c = '\r' || c = '\x85' || (0x20 ≤ c.toNat && c.toNat ≤ 0x7E) ||
    (0xA0 ≤ c.toNat && c.toNat ≤ 0xD7FF) || (0xE000 ≤ c.toNat && c.toNat ≤ 0xFFFD) ||
    0x10000 ≤ c.toNat

/-- The source with a newline for every line end, but for the line and paragraph separators. -/
def unifyLines : Text → Text
  | [] => []
  | '\r' :: '\n' :: rest => '\n' :: unifyLines rest
  | c :: rest => (if c = '\r' ∨ c = '\x85' then '\n' else c) :: unifyLines rest

/-- Whether `c` ends a line, once line ends are uniform. -/
def isBreak (c : Char) : Bool := c = '\n' || c = '\u2028' || c = '\u2029'

def isBlank (c : Char) : Bool := c = ' ' || c = '\t'

/-- Whether a text is at an end: no character, a blank or a line break. -/
def atGap (t : Text) : Bool := t.head?.all fun c => isBlank c || isBreak c

def startsWithDocumentMark : Text → Bool
  | '-' :: '-' :: '-' :: rest => atGap rest
  | '.' :: '.' :: '.' :: rest => atGap rest
  | _ => false

structure Cursor where
  rest : Text
  /-- How many line breaks come before. -/
  line : Nat
  /-- How many characters of the line come before. -/
  column : Nat

def Cursor.skip (k : Cursor) (count : Nat) : Cursor :=
  ⟨k.rest.drop count, k.line, k.column + count⟩

/-- The start of a source whose characters are all allowed. A byte order mark is passed over, and is
    a character of its line. -/
def prepare (source : Text) : Option Cursor :=
  if source.all isAllowed then
    some (match unifyLines source with
      | '\uFEFF' :: rest => ⟨rest, 0, 1⟩
      | text => ⟨text, 0, 0⟩)
  else none

/-! ### Gaps -/

/-- What stands between two runs of characters of a scalar. -/
inductive Gap where
  | none
  | blanks (text : Text)
  /-- Line breaks; the first is missing if it was escaped. -/
  | breaks (first? : Option Char) (more : Text)

namespace Gap

/-- The gap with one more blank, which counts only before a line break. -/
def addBlank (c : Char) : Gap → Gap
  | .none => .blanks [c]
  | .blanks text => .blanks (text ++ [c])
  | gap => gap

def addBreak (c : Char) : Gap → Gap
  | .breaks first? more => .breaks first? (more ++ [c])
  | _ => .breaks (some c) []

def isBroken : Gap → Bool
  | .breaks .. => true
  | _ => false

def fold : Gap → Text
  | .none => []
  | .blanks text => text
  | .breaks (some '\n') [] => [' ']
  | .breaks (some '\n') more => more
  | .breaks first? more => first?.toList ++ more

end Gap

/-! ### Plain scalars -/

/-- Whether `c` has a meaning of its own inside brackets. -/
def isFlowIndicator (c : Char) : Bool :=
  c = ',' || c = '[' || c = ']' || c = '{' || c = '}'

def startsWithKeyEnd : Text → Bool
  | ':' :: rest => atGap rest
  | _ => false

/-- Whether a text goes on with a colon that must not stand in brackets. -/
def startsWithStrayColon : Text → Bool
  | ':' :: c :: _ => isFlowIndicator c || c = '?'
  | _ => false

/-- The rest of a plain scalar after a gap, inside brackets or not, the place where it ends, and
    whether that is after a line break. Lines that go on start at least at column `indent`. -/
def plainScalar (inFlow : Bool) (indent : Nat) (gap : Gap) (line column : Nat) :
    Text → Option (Text × Cursor × Bool)
  | [] => some ([], ⟨[], line, column⟩, gap.isBroken)
  | c :: rest =>
    let ending : Option (Text × Cursor × Bool) := some ([], ⟨c :: rest, line, column⟩, gap.isBroken)
    if isBlank c then
      if gap.isBroken && column < indent && c = '\t' then none
      else plainScalar inFlow indent (gap.addBlank c) line (column + 1) rest
    else if isBreak c then plainScalar inFlow indent (gap.addBreak c) (line + 1) 0 rest
    else
      let afterGap := match gap with
        | .none => false
        | _ => true
      if afterGap && ((!inFlow && column < indent) || c = '#' ||
          (column = 0 && startsWithDocumentMark (c :: rest))) then ending
      else if inFlow && startsWithStrayColon (c :: rest) then none
      else if startsWithKeyEnd (c :: rest) || (inFlow && isFlowIndicator c) then ending
      else
        (plainScalar inFlow indent .none line (column + 1) rest).map
          fun (text, after) => (gap.fold ++ c :: text, after)

/-! ### Quoted scalars -/

/-- The character that a letter after a backslash stands for. -/
def unescape? : Char → Option Char
  | '0' => some '\x00'
  | 'a' => some '\x07'
  | 'b' => some '\x08'
  | 't' | '\t' => some '\t'
  | 'n' => some '\n'
  | 'v' => some '\x0b'
  | 'f' => some '\x0c'
  | 'r' => some '\r'
  | 'e' => some '\x1b'
  | ' ' => some ' '
  | '"' => some '"'
  | '/' => some '/'
  | '\\' => some '\\'
  | 'N' => some '\x85'
  | '_' => some '\xa0'
  | 'L' => some '\u2028'
  | 'P' => some '\u2029'
  | _ => none

/-- How many hexadecimal digits follow a letter after a backslash. -/
def digitCount? : Char → Option Nat
  | 'x' => some 2
  | 'u' => some 4
  | 'U' => some 8
  | _ => none

/-- The character whose code point stands in the first digits of a text. -/
def codePoint? (count : Nat) (t : Text) : Option Char :=
  if count ≤ t.length then
    (Text.hexadecimal? 0 (t.take count)).bind fun n =>
      if n.isValidChar then some (Char.ofNat n) else none
  else none

/-- The rest of a quoted scalar after a gap, and the place after its closing quote. -/
def quotedScalar (quote : Char) (gap : Gap) (line column : Nat) : Text → Option (Text × Cursor)
  | [] => none
  | c :: rest =>
    if column = 0 && startsWithDocumentMark (c :: rest) then none
    else if isBlank c then quotedScalar quote (gap.addBlank c) line (column + 1) rest
    else if isBreak c then quotedScalar quote (gap.addBreak c) (line + 1) 0 rest
    else if c = quote then
      match quote, rest with
      | '\'', '\'' :: rest =>
        (quotedScalar quote .none line (column + 2) rest).map
          fun (text, after) => (gap.fold ++ '\'' :: text, after)
      | _, _ => some (gap.fold, ⟨rest, line, column + 1⟩)
    else if quote = '"' ∧ c = '\\' then
      match rest with
      | [] => none
      | e :: rest =>
        if isBreak e then
          (quotedScalar quote (.breaks none []) (line + 1) 0 rest).map
            fun (text, after) => (gap.fold ++ text, after)
        else
          match digitCount? e with
          | some count =>
            (codePoint? count rest).bind fun d =>
              (quotedScalar quote .none line (column + 2 + count) (rest.drop count)).map
                fun (text, after) => (gap.fold ++ d :: text, after)
          | none =>
            (unescape? e).bind fun d =>
              (quotedScalar quote .none line (column + 2) rest).map
                fun (text, after) => (gap.fold ++ d :: text, after)
    else
      (quotedScalar quote .none line (column + 1) rest).map
        fun (text, after) => (gap.fold ++ c :: text, after)
termination_by t => t.length
decreasing_by all_goals (simp only [List.length_cons, List.length_drop]; omega)

/-! ### Block scalars -/

/-- What becomes of the line breaks at the end of a block scalar. -/
inductive Chomping where
  | strip
  | clip
  | keep
  deriving DecidableEq, Repr

def chomping? : Char → Option Chomping
  | '+' => some .keep
  | '-' => some .strip
  | _ => none

/-- The chomping at the start of a text, if it is given, and what follows. -/
def takeChomping (t : Text) : Chomping × Text :=
  match t with
  | [] => (.clip, [])
  | c :: rest =>
    match chomping? c with
    | some chomping => (chomping, rest)
    | none => (.clip, c :: rest)

/-- The indentation at the start of a text, if it is given, and what follows; zero is refused. -/
def takeIndentation (t : Text) : Option (Option Nat × Text) :=
  match t with
  | [] => some (none, [])
  | c :: rest =>
    if c = '0' then none
    else if c.isDigit then some (some (c.toNat - '0'.toNat), rest)
    else some (none, c :: rest)

/-- Chomping and indentation in the header of a block scalar, in either order, and what follows. -/
def takeIndicators (t : Text) : Option (Chomping × Option Nat × Text) :=
  if t.head?.any fun c => (chomping? c).isSome then
    let (chomping, rest) := takeChomping t
    (takeIndentation rest).map fun (indentation?, rest) => (chomping, indentation?, rest)
  else
    match takeIndentation t with
    | none => none
    | some (none, rest) => some (.clip, none, rest)
    | some (some n, rest) =>
      let (chomping, rest) := takeChomping rest
      some (chomping, some n, rest)

/-- What follows the blanks and the comment that may end a line, if the line does end there. -/
def restOfLine? (t : Text) : Option Text :=
  let t := t.dropWhile isBlank
  let t := if t.head? = some '#' then t.dropWhile (!isBreak ·) else t
  match t with
  | [] => some []
  | c :: rest => if isBreak c then some rest else none

/-- The empty lines at the start of a block scalar's next part: their breaks, the largest column that
    was reached, and the place after them. Spaces up to column `indent` are passed over, all of them
    if it is zero. -/
def emptyLines (indent : Nat) (largest line column : Nat) : Text → Option (Text × Nat × Cursor)
  | [] => some ([], max largest column, ⟨[], line, column⟩)
  | c :: rest =>
    let inside := indent = 0 || column < indent
    if inside && c = ' ' then emptyLines indent largest line (column + 1) rest
    else if inside && c = '\t' then none
    else if isBreak c then
      (emptyLines indent (max largest column) (line + 1) 0 rest).map
        fun (breaks, after) => (c :: breaks, after)
    else some ([], max largest column, ⟨c :: rest, line, column⟩)

/-- The text between two lines of a block scalar. Outside of literals the break between two lines that
    both start without a blank is folded. -/
def betweenLines (literal blankBefore blankAfter : Bool) (lineBreak breaks : Text) : Text :=
  if !literal && lineBreak = ['\n'] && !blankBefore && !blankAfter then
    (if breaks.isEmpty then [' '] else []) ++ breaks
  else lineBreak ++ breaks

/-- The lines of a block scalar at a column, from a place on. `lineBreak` and `breaks` stand before
    them, and a line before them started with a blank or not. `fuel` bounds the number of lines. -/
def blockLines (literal : Bool) (chomping : Chomping) (indent : Nat) :
    Nat → Bool → Text → Text → Cursor → Option (Text × Cursor)
  | 0, _, _, _, _ => none
  | fuel + 1, blankBefore, lineBreak, breaks, k =>
    if k.column = indent && !k.rest.isEmpty then
      let blank := k.rest.head?.any isBlank
      let content := k.rest.takeWhile (!isBreak ·)
      let after := k.rest.dropWhile (!isBreak ·)
      let ending := after.take 1
      let (line, column) := if ending.isEmpty then (k.line, k.column + content.length)
        else (k.line + 1, 0)
      (emptyLines indent 0 line column (after.drop 1)).bind fun (next, _, k) =>
        (blockLines literal chomping indent fuel blank ending next k).map
          fun (text, k) =>
            (betweenLines literal blankBefore blank lineBreak breaks ++ content ++ text, k)
    else
      some (match chomping with
        | .strip => []
        | .clip => lineBreak
        | .keep => lineBreak ++ breaks, k)

/-- The block scalar after its `|` or `>`, inside a block at column `outer?`, and the place after
    it. Without a given indentation the first line that is not empty sets it. -/
def blockScalar (literal : Bool) (outer? : Option Nat) (k : Cursor) : Option (Text × Cursor) :=
  match takeIndicators k.rest with
  | none => none
  | some (chomping, indentation?, rest) =>
    (restOfLine? rest).bind fun body =>
      let given := (indentation?.map (· + outer?.getD 0)).getD 0
      (emptyLines given 0 (k.line + 1) 0 body).bind fun (breaks, largest, k) =>
        let least := match outer? with
          | some n => n + 1
          | none => 1
        let indent := if given = 0 then max largest least else given
        blockLines literal chomping indent (k.rest.length + 1) false [] breaks k

end SassImports.Yaml
