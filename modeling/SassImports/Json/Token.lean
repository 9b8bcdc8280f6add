/-
  SassImports/Json/Token.lean
  ===========================
  A JSON text as a list of tokens. What is wrong inside a token matters only to those who read it, so
  a token carries two answers: what reading its value gives, and what passing over it gives. Where no
  next token can be told, the list ends.

    * `tokens` cuts a text; blanks are space, tab, newline and carriage return;
    * `pieces` cuts a quoted text, and `decode` reads it: surrogates must come in pairs;
    * `Token.wrong` is the fault of a token where a value of another kind is asked for.
-/
import SassImports.Json.Numeral
import SassImports.Text.Hexadecimal

namespace SassImports.Json

/-! ### Quoted texts -/

inductive Piece where
  /-- A character, as it is or after a backslash. -/
  | char (c : Char)
  /-- A unit of UTF-16 in hexadecimal digits. -/
  | unit (n : Nat)
  deriving DecidableEq, Repr

/-- The character that a letter after a backslash stands for. -/
def unescape? : Char → Option Char
  | '"' => some '"'
  | '\\' => some '\\'
  | '/' => some '/'
  | 'b' => some '\x08'
  | 'f' => some '\x0c'
  | 'n' => some '\n'
  | 'r' => some '\r'
  | 't' => some '\t'
  | _ => none

/-- The parts of a text after its opening quote, up to the first fault if there is one, and what
    follows the closing quote. -/
def pieces : Text → List Piece × Except Fault Text
  | [] => ([], .error .endOfText)
  | '"' :: rest => ([], .ok rest)
  | ['\\'] => ([], .error .endOfText)
  | '\\' :: 'u' :: a :: b :: c :: d :: rest =>
    match Text.hexadecimal? 0 [a, b, c, d] with
    | some n =>
      let (ps, after) := pieces rest
      (.unit n :: ps, after)
    | none => ([], .error .notJson)
  | '\\' :: 'u' :: rest =>
    ([], .error (if Text.byteLength rest < 4 then .endOfText else .notJson))
  | '\\' :: e :: rest =>
    match unescape? e with
    | some c =>
      let (ps, after) := pieces rest
      (.char c :: ps, after)
    | none => ([], .error .notJson)
  | c :: rest =>
    if c.toNat < 0x20 then ([], .error .notJson)
    else
      let (ps, after) := pieces rest
      (.char c :: ps, after)

theorem length_pieces {t rest : Text} (h : (pieces t).2 = .ok rest) : rest.length < t.length := by
  fun_induction pieces t with
  | case1 => cases h
  | case2 rest' => obtain rfl := Except.ok.inj h; simp
  | case3 => cases h
  | case4 a b c d rest' n _ ps after hp ih =>
    have := ih (by rw [hp]; exact h)
    simp only [List.length_cons]; omega
  | case5 => cases h
  | case6 => cases h
  | case7 e rest' _ _ _ _ ps after hp ih =>
    have := ih (by rw [hp]; exact h)
    simp only [List.length_cons]; omega
  | case8 => cases h
  | case9 => cases h
  | case10 c rest' _ _ _ _ _ _ ps after hp ih =>
    have := ih (by rw [hp]; exact h)
    simp only [List.length_cons]; omega

/-- Whether a unit is the first of a surrogate pair. -/
def isLeading (n : Nat) : Bool := 0xD800 ≤ n && n ≤ 0xDBFF

/-- Whether a unit is the second of a surrogate pair. -/
def isTrailing (n : Nat) : Bool := 0xDC00 ≤ n && n ≤ 0xDFFF

/-- The text that parts stand for. `end?` is the fault that ended them, if one did. -/
def decode (end? : Option Fault) : List Piece → Except Fault Text
  | [] =>
    match end? with
    | some fault => .error fault
    | none => .ok []
  | .char c :: ps => (decode end? ps).map (c :: ·)
  | .unit n :: .unit m :: ps =>
    if isLeading n then
      if isTrailing m then
        (decode end? ps).map (Char.ofNat (0x10000 + (n - 0xD800) * 0x400 + (m - 0xDC00)) :: ·)
      else .error .notJson
    else if isTrailing n then .error .notJson
    else (decode end? (.unit m :: ps)).map (Char.ofNat n :: ·)
  | [.unit n] =>
    if isTrailing n then .error .notJson
    else
      match end? with
      | some fault => .error fault
      | none => if isLeading n then .error .notJson else .ok [Char.ofNat n]
  | .unit n :: .char c :: ps =>
    if isLeading n || isTrailing n then .error .notJson
    else (decode end? ps).map (Char.ofNat n :: c :: ·)

/-! ### Tokens -/

inductive Token where
  | mark (c : Char)
  /-- `null`, `true` or `false`, and what is wrong with it. -/
  | word (isNull : Bool) (fault? : Option Fault)
  /-- A quoted text: its value, and what is wrong with it for those who pass over it. -/
  | text (value : Except Fault Text) (fault? : Option Fault)
  /-- A number: its value if it is a natural number, and what is wrong with it for those who pass
      over it. -/
  | number (value : Except Fault (Option Nat)) (fault? : Option Fault)
  | junk

def isSpace (c : Char) : Bool := c = ' ' || c = '\t' || c = '\n' || c = '\r'

def isMark (c : Char) : Bool :=
  c = '[' || c = ']' || c = '{' || c = '}' || c = ',' || c = ':'

/-- What follows the letters of a word at the start of a text. -/
def afterLetters : Text → Text → Except Fault Text
  | [], rest => .ok rest
  | _ :: _, [] => .error .endOfText
  | l :: letters, c :: rest => if c = l then afterLetters letters rest else .error .notJson

theorem length_afterLetters {letters t rest : Text} (h : afterLetters letters t = .ok rest) :
    rest.length ≤ t.length := by
  fun_induction afterLetters letters t with
  | case1 => obtain rfl := Except.ok.inj h; exact Nat.le_refl _
  | case2 => cases h
  | case3 letters c rest' ih =>
    have := ih h
    simp only [List.length_cons]; omega
  | case4 => cases h

/-- The word that starts with `c`: whether it is `null`, and the letters after `c`. -/
def wordFrom? : Char → Option (Bool × Text)
  | 'n' => some (true, "ull".toList)
  | 't' => some (false, "rue".toList)
  | 'f' => some (false, "alse".toList)
  | _ => none

/-- The token at the start of a text that starts with neither a blank nor a mark, and what follows
    it, if that can be told. -/
def tokenFrom (c : Char) (rest : Text) : Token × Option Text :=
  if c = '"' then
    match (pieces rest).2 with
    | .ok after => (.text (decode none (pieces rest).1) none, some after)
    | .error fault => (.text (decode (some fault) (pieces rest).1) (some fault), none)
  else if c = '-' || c.isDigit then
    match Numeral.scan (c :: rest) with
    | .ok (n, after) => (.number n.value none, some after)
    | .error .atEnd => (.number (.error .endOfText) (some .notJson), none)
    | .error .badCharacter => (.number (.error .notJson) (some .notJson), none)
  else
    match wordFrom? c with
    | some (isNull, letters) =>
      match afterLetters letters rest with
      | .ok after => (.word isNull none, some after)
      | .error fault => (.word isNull (some fault), none)
    | none => (.junk, none)

theorem length_tokenFrom {c : Char} {rest after : Text} (h : (tokenFrom c rest).2 = some after) :
    after.length < (c :: rest).length := by
  unfold tokenFrom at h
  split at h
  · split at h
    · next hp =>
      obtain rfl := Option.some.inj h
      exact Nat.lt_succ_of_lt (length_pieces hp)
    · cases h
  · split at h
    · split at h
      · next hn =>
        obtain rfl := Option.some.inj h
        exact Numeral.length_scan hn
      · cases h
      · cases h
    · split at h
      · split at h
        · next hw =>
          obtain rfl := Option.some.inj h
          exact Nat.lt_succ_of_le (length_afterLetters hw)
        · cases h
      · cases h

def tokens : Text → List Token
  | [] => []
  | c :: rest =>
    if isSpace c then tokens rest
    else if isMark c then .mark c :: tokens rest
    else
      (tokenFrom c rest).1 :: match _ : (tokenFrom c rest).2 with
        | some after => tokens after
        | none => []
termination_by t => t.length
decreasing_by
  · exact Nat.lt_succ_self _
  · exact Nat.lt_succ_self _
  · exact length_tokenFrom ‹_›

/-! ### Reading tokens -/

namespace Token

/-- What is wrong with a token where a value of another kind is asked for: the faults inside it come
    first, and a bracket that opens a list or an object is not looked into. -/
def wrong : Token → Fault
  | .mark c => if c = '[' ∨ c = '{' then .wrongValue else .notJson
  | .word _ fault? => fault?.getD .wrongValue
  | .text (.ok _) _ => .wrongValue
  | .text (.error fault) _ => fault
  | .number (.ok _) _ => .wrongValue
  | .number (.error fault) _ => fault
  | .junk => .notJson

def asText : Token → Except Fault Text
  | .text value _ => value
  | t => .error t.wrong

end Token

/-! ### Passing over a value -/

/-- What an unread value goes on with. -/
inductive Expected where
  | value
  | firstItem
  | firstKey
  | key
  | colon
  | separator
  deriving DecidableEq, Repr

/-- What an unread value goes on with after a token, and the brackets that are open then, innermost
    first; nothing once it is complete. -/
def Expected.after (token : Token) (opened : List Char) :
    Expected → Except Fault (Option (Expected × List Char))
  | .value => valueAfter
  | .firstItem =>
    match token with
    | .mark ']' => .ok (closed opened.tail)
    | _ => valueAfter
  | .firstKey =>
    match token with
    | .mark '}' => .ok (closed opened.tail)
    | _ => keyAfter
  | .key => keyAfter
  | .colon =>
    match token with
    | .mark ':' => .ok (some (.value, opened))
    | _ => .error .notJson
  | .separator =>
    match token, opened.head? with
    | .mark ',', some '[' => .ok (some (.value, opened))
    | .mark ',', _ => .ok (some (.key, opened))
    | .mark ']', some '[' => .ok (closed opened.tail)
    | .mark '}', some '{' => .ok (closed opened.tail)
    | _, _ => .error .notJson
where
  closed : List Char → Option (Expected × List Char)
    | [] => none
    | opened => some (.separator, opened)
  /-- After a token that must start a value. -/
  valueAfter : Except Fault (Option (Expected × List Char)) :=
    match token with
    | .mark '[' => .ok (some (.firstItem, '[' :: opened))
    | .mark '{' => .ok (some (.firstKey, '{' :: opened))
    | .word _ fault? | .text _ fault? | .number _ fault? =>
      match fault? with
      | some fault => .error fault
      | none => .ok (closed opened)
    | _ => .error .notJson
  /-- After a token that must be a key. -/
  keyAfter : Except Fault (Option (Expected × List Char)) :=
    match token with
    | .text _ (some fault) => .error fault
    | .text _ none => .ok (some (.colon, opened))
    | _ => .error .notJson

/-- What follows a value that is passed over; it may be nested to any depth. -/
def skip (expected : Expected) (opened : List Char) : List Token → Except Fault (List Token)
  | [] => .error .endOfText
  | token :: rest =>
    match expected.after token opened with
    | .error fault => .error fault
    | .ok none => .ok rest
    | .ok (some (next, opened)) => skip next opened rest

theorem length_skip {e : Expected} {opened : List Char} {ts rest : List Token}
    (h : skip e opened ts = .ok rest) : rest.length < ts.length := by
  induction ts generalizing e opened with
  | nil => cases h
  | cons t ts ih =>
    unfold skip at h
    split at h
    · cases h
    · obtain rfl := Except.ok.inj h; simp
    · exact Nat.lt_succ_of_lt (ih h)

end SassImports.Json
