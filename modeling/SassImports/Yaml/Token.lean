/-
  SassImports/Yaml/Token.lean
  ===========================
  A YAML source as a list of tokens. Indentation turns into tokens that open and close blocks, and a
  simple key, of which only the colon after it tells that it is one, gets its key token afterwards.

    * `Scanner` is the state between two tokens: the place, the tokens so far, the columns of the
      blocks that are open, and for each level of brackets the key that may still turn out to be one;
    * `Scanner.fetch` reads one token, `tokens?` all of them.

  A key stands on one line and has at most 1024 characters before its colon. Directives and tags are
  left out: a source with one of them is refused, although YAML has both.
-/
import SassImports.Yaml.Scalar

namespace SassImports.Yaml

inductive Token where
  | documentStart
  | documentEnd
  | blockSequenceStart
  | blockMappingStart
  | blockEnd
  | flowSequenceStart
  | flowSequenceEnd
  | flowMappingStart
  | flowMappingEnd
  | blockEntry
  | flowEntry
  | key
  | value
  | alias (name : Text)
  | anchor (name : Text)
  | scalar (plain : Bool) (text : Text)
  deriving DecidableEq, Repr

/-- A token that becomes a key if a colon comes in time. -/
structure PossibleKey where
  /-- Whether nothing else may stand at its place. -/
  required : Bool
  /-- How many tokens come before it. -/
  position : Nat
  line : Nat
  column : Nat

def maxKeyLength : Nat := 1024

/-- Whether a possible key is out of reach of a colon at a place. -/
def PossibleKey.isStale (k : PossibleKey) (place : Cursor) : Bool :=
  k.line < place.line || k.column + maxKeyLength < place.column

/-- What is known between two tokens. -/
structure Scanner where
  cursor : Cursor
  tokens : Array Token
  /-- The columns of the open blocks, innermost first. -/
  blocks : List Nat
  /-- Whether a simple key may start here. -/
  keyAllowed : Bool
  /-- The possible key of every level of brackets, innermost first; the last is that of no brackets. -/
  keys : List (Option PossibleKey)

namespace Scanner

def start (k : Cursor) : Scanner := ⟨k, #[], [], true, [none]⟩

def inFlow (s : Scanner) : Bool := 1 < s.keys.length

/-! ### Tokens and blocks -/

def push (s : Scanner) (t : Token) : Scanner := { s with tokens := s.tokens.push t }

def pushMark (s : Scanner) (t : Token) (length : Nat) : Scanner :=
  { s.push t with cursor := s.cursor.skip length }

/-- Opens a block at a column, unless brackets are open or a block of that column or a later one is.
    Its token goes before the token at a position. -/
def openBlock (s : Scanner) (column position : Nat) (t : Token) : Scanner :=
  if !s.inFlow && s.blocks.head?.all (· < column) then
    { s with blocks := column :: s.blocks, tokens := s.tokens.insertIdxIfInBounds position t }
  else s

def openBlockHere (s : Scanner) (t : Token) : Scanner :=
  s.openBlock s.cursor.column s.tokens.size t

/-- Closes the blocks whose column the predicate holds of, innermost first. -/
def closeBlocks (s : Scanner) (closes : Nat → Bool) : Scanner :=
  if s.inFlow then s
  else
    { s with
      blocks := s.blocks.dropWhile closes
      tokens := s.tokens ++ (s.blocks.takeWhile closes).map fun _ => Token.blockEnd }

/-! ### Possible keys -/

/-- Gives up the possible key of this level; one that is required cannot be given up. -/
def dropKey (s : Scanner) : Option Scanner :=
  match s.keys with
  | some k :: keys => if k.required then none else some { s with keys := none :: keys }
  | _ => some s

def saveKey (s : Scanner) : Option Scanner :=
  if s.keyAllowed then
    s.dropKey.map fun s =>
      let key : PossibleKey :=
        ⟨!s.inFlow && s.blocks.head? = some s.cursor.column, s.tokens.size, s.cursor.line,
          s.cursor.column⟩
      { s with keys := some key :: s.keys.tail }
  else some s

def dropStaleKeys (s : Scanner) : Option Scanner :=
  let stale (key? : Option PossibleKey) : Bool := key?.any (·.isStale s.cursor)
  if s.keys.any fun key? => stale key? && key?.any (·.required) then none
  else some { s with keys := s.keys.map fun key? => if stale key? then none else key? }

/-! ### Blanks between tokens -/

/-- The place of the next token and whether a key may start there. Tabs are blanks in brackets, and
    elsewhere where no key may start. -/
def skipBlanks (inFlow : Bool) (inComment keyAllowed : Bool) (line column : Nat) :
    Text → Cursor × Bool
  | [] => (⟨[], line, column⟩, keyAllowed)
  | c :: rest =>
    if isBreak c then skipBlanks inFlow false (keyAllowed || !inFlow) (line + 1) 0 rest
    else if inComment || c = ' ' || (c = '\t' && (inFlow || !keyAllowed)) then
      skipBlanks inFlow inComment keyAllowed line (column + 1) rest
    else if c = '#' then skipBlanks inFlow true keyAllowed line (column + 1) rest
    else (⟨c :: rest, line, column⟩, keyAllowed)

/-- The state at the next token: stale keys given up, blocks to the right of it closed. -/
def advance (s : Scanner) : Option Scanner :=
  let (cursor, keyAllowed) :=
    skipBlanks s.inFlow false s.keyAllowed s.cursor.line s.cursor.column s.cursor.rest
  (dropStaleKeys { s with cursor, keyAllowed }).map fun s => s.closeBlocks (s.cursor.column < ·)

/-! ### One token -/

def fetchDocumentMark (s : Scanner) (t : Token) : Option Scanner :=
  (s.closeBlocks fun _ => true).dropKey.map
    fun s => { s.pushMark t 3 with keyAllowed := false }

def fetchFlowStart (s : Scanner) (t : Token) : Option Scanner :=
  s.saveKey.map fun s => { s.pushMark t 1 with keys := none :: s.keys, keyAllowed := true }

/-- A closing bracket, which may also close nothing. -/
def fetchFlowEnd (s : Scanner) (t : Token) : Option Scanner :=
  s.dropKey.map fun s =>
    { s.pushMark t 1 with
      keys := if s.inFlow then s.keys.tail else s.keys
      keyAllowed := false }

def fetchFlowEntry (s : Scanner) : Option Scanner :=
  s.dropKey.map fun s => { s.pushMark .flowEntry 1 with keyAllowed := true }

def fetchBlockEntry (s : Scanner) : Option Scanner :=
  if !s.inFlow && !s.keyAllowed then none
  else (s.openBlockHere .blockSequenceStart).dropKey.map
    fun s => { s.pushMark .blockEntry 1 with keyAllowed := true }

def fetchKey (s : Scanner) : Option Scanner :=
  if !s.inFlow && !s.keyAllowed then none
  else (s.openBlockHere .blockMappingStart).dropKey.map
    fun s => { s.pushMark .key 1 with keyAllowed := !s.inFlow }

/-- A colon: it makes a key of the possible key of its level, if there is one. -/
def fetchValue (s : Scanner) : Option Scanner :=
  match s.keys with
  | some k :: keys =>
    let s := { s with tokens := s.tokens.insertIdxIfInBounds k.position .key, keys := none :: keys }
    let s := s.openBlock k.column k.position .blockMappingStart
    some { s.pushMark .value 1 with keyAllowed := false }
  | _ =>
    if !s.inFlow && !s.keyAllowed then none
    else
      let s := s.openBlockHere .blockMappingStart
      some { s.pushMark .value 1 with keyAllowed := !s.inFlow }

def isAnchorChar (c : Char) : Bool := c.isAlphanum || c = '_' || c = '-'

def endsAnchor (t : Text) : Bool :=
  atGap t || t.head?.any (· ∈ ['?', ':', ',', ']', '}', '%', '@', '\x60'])

def fetchAnchor (s : Scanner) (token : Text → Token) : Option Scanner :=
  s.saveKey.bind fun s =>
    let name := (s.cursor.rest.drop 1).takeWhile isAnchorChar
    if name.isEmpty || !endsAnchor (s.cursor.rest.drop (name.length + 1)) then none
    else some { s.pushMark (token name) (name.length + 1) with keyAllowed := false }

def fetchBlockScalar (s : Scanner) (literal : Bool) : Option Scanner :=
  s.dropKey.bind fun s =>
    (blockScalar literal s.blocks.head? (s.cursor.skip 1)).map fun (text, cursor) =>
      { s.push (.scalar false text) with cursor, keyAllowed := true }

def fetchQuotedScalar (s : Scanner) (quote : Char) : Option Scanner :=
  s.saveKey.bind fun s =>
    (quotedScalar quote .none s.cursor.line (s.cursor.column + 1) (s.cursor.rest.drop 1)).map
      fun (text, cursor) => { s.push (.scalar false text) with cursor, keyAllowed := false }

/-- A plain scalar. A key may start after it if it goes on to a line that it does not fill. -/
def fetchPlainScalar (s : Scanner) : Option Scanner :=
  s.saveKey.bind fun s =>
    let indent := match s.blocks.head? with
      | some n => n + 1
      | none => 0
    (plainScalar s.inFlow indent .none s.cursor.line s.cursor.column s.cursor.rest).map
      fun (text, cursor, afterBreak) =>
        { s.push (.scalar true text) with cursor, keyAllowed := afterBreak }

/-- The characters that mean something at the start of a token. -/
def indicators : Text := "-?:,[]\x7b\x7d#&*!|>'\"%@\x60".toList

def startsPlain (inFlow : Bool) (c : Char) (rest : Text) : Bool :=
  !(isBlank c || isBreak c || c ∈ indicators) ||
    (c = '-' && !rest.head?.any isBlank) || (!inFlow && (c = '?' || c = ':') && !atGap rest)

def fetch (s : Scanner) : Option Scanner :=
  match s.cursor.rest with
  | [] => none
  | c :: rest =>
    if s.cursor.column = 0 && c = '%' then none
    else if s.cursor.column = 0 && startsWithDocumentMark (c :: rest) then
      s.fetchDocumentMark (if c = '-' then .documentStart else .documentEnd)
    else if c = '[' then s.fetchFlowStart .flowSequenceStart
    else if c = '{' then s.fetchFlowStart .flowMappingStart
    else if c = ']' then s.fetchFlowEnd .flowSequenceEnd
    else if c = '}' then s.fetchFlowEnd .flowMappingEnd
    else if c = ',' then s.fetchFlowEntry
    else if c = '-' && atGap rest then s.fetchBlockEntry
    else if c = '?' && (s.inFlow || atGap rest) then s.fetchKey
    else if c = ':' && (s.inFlow || atGap rest) then s.fetchValue
    else if c = '*' then s.fetchAnchor .alias
    else if c = '&' then s.fetchAnchor .anchor
    else if c = '|' && !s.inFlow then s.fetchBlockScalar true
    else if c = '>' && !s.inFlow then s.fetchBlockScalar false
    else if c = '\'' || c = '"' then s.fetchQuotedScalar c
    else if startsPlain s.inFlow c rest then s.fetchPlainScalar
    else none

/-! ### All tokens -/

/-- The tokens of what is left, where `fuel` bounds their number. -/
def run : Nat → Scanner → Option (List Token)
  | 0, _ => none
  | fuel + 1, s =>
    s.advance.bind fun s =>
      if s.cursor.rest.isEmpty then
        (s.closeBlocks fun _ => true).dropKey.map fun s => s.tokens.toList
      else s.fetch.bind (run fuel)

end Scanner

/-- The tokens of a source. Every token takes at least one of its characters. -/
def tokens? (source : Text) : Option (List Token) :=
  (prepare source).bind fun k => (Scanner.start k).run (k.rest.length + 1)

end SassImports.Yaml
