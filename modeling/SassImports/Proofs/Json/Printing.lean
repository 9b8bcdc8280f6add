/-
  SassImports/Proofs/Json/Printing.lean
  =====================================
  A printed value is cut into the tokens it was printed from, under every layout that has nothing but
  blanks between the parts.

    * `pieces_quote` and `decode_map_piece`: a text between quotes is read back, whatever it contains;
    * `scan_toDigits`: the digits of a number are one numeral;
    * `Json.written`: the tokens of a value, by recursion on the value; `tokens_render` says that they
      are the tokens of its printed form.
-/
import SassImports.Json.Token

namespace SassImports.Json

variable {t rest after : Text} {c : Char} {token : Token}

/-! ### Quoted texts -/

def piece (c : Char) : Piece :=
  if c.toNat < 0x20 ∧ c ∉ ['\x08', '\t', '\n', '\x0c', '\r'] then .unit c.toNat else .char c

theorem hexadecimal?_control : ∀ n < 0x20,
    Text.hexadecimal? 0 ['0', '0', Nat.digitChar (n / 16), Nat.digitChar (n % 16)] = some n := by
  decide

theorem pieces_cons (hquote : c ≠ '"') (hescape : c ≠ '\\') (hprinted : ¬c.toNat < 0x20)
    (rest : Text) : pieces (c :: rest) = (.char c :: (pieces rest).1, (pieces rest).2) := by
  rw [pieces.eq_def]
  split <;> simp_all

/-- A character is written by a short escape, by its digits, or as it is. -/
theorem escape_cases (c : Char) :
    c ∈ ['"', '\\', '\x08', '\t', '\n', '\x0c', '\r'] ∨
    (c.toNat < 0x20 ∧ piece c = .unit c.toNat ∧ escape c =
      ['\\', 'u', '0', '0', Nat.digitChar (c.toNat / 16), Nat.digitChar (c.toNat % 16)]) ∨
    (c ≠ '"' ∧ c ≠ '\\' ∧ ¬c.toNat < 0x20 ∧ escape c = [c]) := by
  by_cases hshort : c ∈ ['"', '\\', '\x08', '\t', '\n', '\x0c', '\r']
  · exact .inl hshort
  · simp only [List.mem_cons, List.not_mem_nil, or_false, not_or] at hshort
    obtain ⟨hquote, hescape, hback, htab, hline, hfeed, hreturn⟩ := hshort
    by_cases hcontrol : c.toNat < 0x20
    · exact .inr (.inl ⟨hcontrol, by simp [piece, *], by simp [escape, *]⟩)
    · exact .inr (.inr ⟨hquote, hescape, hcontrol, by simp [escape, *]⟩)

/-- A character is read back as the part that it was written as. -/
theorem pieces_escape (c : Char) (rest : Text) :
    pieces (escape c ++ rest) = (piece c :: (pieces rest).1, (pieces rest).2) := by
  rcases escape_cases c with hshort | ⟨hcontrol, hpiece, hwritten⟩ |
    ⟨hquote, hescape, hprinted, hwritten⟩
  · simp only [List.mem_cons, List.not_mem_nil, or_false] at hshort
    rcases hshort with rfl | rfl | rfl | rfl | rfl | rfl | rfl <;> rfl
  · have hread : pieces ('\\' :: 'u' :: '0' :: '0' :: Nat.digitChar (c.toNat / 16) ::
        Nat.digitChar (c.toNat % 16) :: rest) =
          (.unit c.toNat :: (pieces rest).1, (pieces rest).2) := by
      rw [pieces, hexadecimal?_control c.toNat hcontrol]
    rw [hwritten, hpiece]
    exact hread
  · have hpiece : piece c = .char c := by
      simp [piece, hprinted]
    rw [hwritten, hpiece]
    exact pieces_cons hquote hescape hprinted rest

theorem pieces_quote (t rest : Text) :
    pieces (t.flatMap escape ++ '"' :: rest) = (t.map piece, .ok rest) := by
  induction t with
  | nil => rfl
  | cons c t ih => rw [List.flatMap_cons, List.append_assoc, pieces_escape, ih, List.map_cons]

/-- A unit that is no surrogate is a character by itself. -/
theorem decode_unit {n : Nat} (hleading : isLeading n = false) (htrailing : isTrailing n = false)
    (ps : List Piece) : decode none (.unit n :: ps) = (decode none ps).map (Char.ofNat n :: ·) := by
  match ps with
  | [] => simp [decode, hleading, htrailing, Except.map]
  | .unit m :: ps => simp [decode, hleading, htrailing]
  | .char d :: ps =>
    rw [decode, decode]
    cases decode none ps <;> simp [hleading, htrailing, Except.map]

theorem decode_map_piece (t : Text) : decode none (t.map piece) = .ok t := by
  induction t with
  | nil => rfl
  | cons c t ih =>
    have hcons : decode none (piece c :: t.map piece) = (decode none (t.map piece)).map (c :: ·) := by
      unfold piece
      split
      · next hcontrol =>
        -- control characters are far from the surrogates
        have hleading : isLeading c.toNat = false := by
          simp [isLeading]
          omega
        have htrailing : isTrailing c.toNat = false := by
          simp [isTrailing]
          omega
        rw [decode_unit hleading htrailing, Char.ofNat_toNat]
      · rw [decode]
    rw [List.map_cons, hcons, ih]
    rfl

/-! ### Tokens -/

theorem tokens_nil : tokens [] = [] := by
  rw [tokens]

theorem tokens_space (hc : isSpace c = true) (rest : Text) : tokens (c :: rest) = tokens rest := by
  rw [tokens, if_pos hc]

theorem tokens_spaces (ht : ∀ c ∈ t, isSpace c = true) (rest : Text) :
    tokens (t ++ rest) = tokens rest := by
  induction t with
  | nil => rfl
  | cons c t ih =>
    obtain ⟨hc, ht⟩ := List.forall_mem_cons.1 ht
    rw [List.cons_append, tokens_space hc, ih ht]

theorem tokens_mark (hc : isMark c = true) (rest : Text) :
    tokens (c :: rest) = .mark c :: tokens rest := by
  have hspace : ¬isSpace c = true := by
    intro hspace
    simp only [isSpace, Bool.or_eq_true, decide_eq_true_eq] at hspace
    rcases hspace with ((rfl | rfl) | rfl) | rfl <;> cases hc
  rw [tokens, if_neg hspace, if_pos hc]

theorem tokens_of_tokenFrom (hspace : isSpace c = false) (hmark : isMark c = false)
    (h : tokenFrom c rest = (token, some after)) : tokens (c :: rest) = token :: tokens after := by
  rw [tokens, if_neg (by simp [hspace]), if_neg (by simp [hmark]), h]

theorem tokens_quote (t rest : Text) :
    tokens (quote t ++ rest) = .text (.ok t) none :: tokens rest := by
  have hfrom : tokenFrom '"' (t.flatMap escape ++ '"' :: rest) =
      (.text (.ok t) none, some rest) := by
    rw [tokenFrom, if_pos rfl, pieces_quote]
    show (Token.text (decode none (t.map piece)) none, some rest) = _
    rw [decode_map_piece]
  have hquote : quote t ++ rest = '"' :: (t.flatMap escape ++ '"' :: rest) := by
    simp [quote]
  rw [hquote, tokens_of_tokenFrom rfl rfl hfrom]

theorem tokens_null (rest : Text) : tokens ("null".toList ++ rest) = .word true none :: tokens rest :=
  tokens_of_tokenFrom rfl rfl rfl

/-! ### Numbers -/

/-- A text that no numeral before it goes on with. -/
def EndsNumeral (rest : Text) : Prop :=
  ∀ c ∈ rest.head?, c.isDigit = false ∧ c ≠ '.' ∧ c ≠ 'e' ∧ c ≠ 'E'

theorem isDigit_of_mem_toDigits {n : Nat} (hc : c ∈ Nat.toDigits 10 n) : c.isDigit = true :=
  Nat.isDigit_of_mem_toDigits (by decide) (by decide) hc

theorem ne_of_isDigit {d e : Char} (hd : d.isDigit = true) (he : e.isDigit = false) : d ≠ e := by
  rintro rfl
  rw [hd] at he
  cases he

theorem decimal_toDigits (n : Nat) : decimal 0 (Nat.toDigits 10 n) = n :=
  Nat.ofDigitChars_toDigits (by decide) (by decide)

/-- Only zero is written with a zero at its start. -/
theorem toDigits_of_head?_zero {n : Nat} (h : (Nat.toDigits 10 n).head? = some '0') :
    Nat.toDigits 10 n = ['0'] := by
  by_cases hn : n < 10
  · rw [Nat.toDigits_of_lt_base hn] at h ⊢
    rw [Option.some.inj h]
  · have hsplit := Nat.toDigits_of_base_le (b := 10) (by decide) (Nat.le_of_not_lt hn)
    -- the first digit stays when the last one is cut off
    have hhead : (Nat.toDigits 10 (n / 10)).head? = some '0' := by
      obtain ⟨d, ds, hds⟩ := List.exists_cons_of_ne_nil (@Nat.toDigits_ne_nil (n / 10) 10)
      rw [hsplit, hds] at h
      rw [hds]
      exact h
    have hzero : decimal 0 (Nat.toDigits 10 (n / 10)) = 0 := by
      rw [toDigits_of_head?_zero hhead]
      rfl
    rw [decimal_toDigits] at hzero
    omega
termination_by n

theorem scanDigits_append {digits : Text} (hne : digits ≠ [])
    (hdigits : ∀ c ∈ digits, c.isDigit = true) (hrest : ∀ c ∈ rest.head?, c.isDigit = false) :
    Numeral.scanDigits (digits ++ rest) = .ok (digits, rest) := by
  obtain ⟨c, digits, rfl⟩ := List.exists_cons_of_ne_nil hne
  obtain ⟨hc, hdigits⟩ := List.forall_mem_cons.1 hdigits
  have hstop : rest.takeWhile Char.isDigit = [] ∧ rest.dropWhile Char.isDigit = rest := by
    cases rest with
    | nil => exact ⟨rfl, rfl⟩
    | cons d rest => simp [hrest d rfl]
  rw [List.cons_append, Numeral.scanDigits, if_pos hc, List.takeWhile_append_of_pos hdigits,
    List.dropWhile_append_of_pos hdigits, hstop.1, hstop.2, List.append_nil]

theorem scanWhole_toDigits (n : Nat) (hrest : ∀ c ∈ rest.head?, c.isDigit = false) :
    Numeral.scanWhole (Nat.toDigits 10 n ++ rest) = .ok (Nat.toDigits 10 n, rest) := by
  unfold Numeral.scanWhole
  split
  · next after h =>
    have hzero : Nat.toDigits 10 n = ['0'] := by
      apply toDigits_of_head?_zero
      obtain ⟨d, ds, hds⟩ := List.exists_cons_of_ne_nil (@Nat.toDigits_ne_nil n 10)
      rw [hds] at h ⊢
      exact congrArg some (List.cons.inj h).1
    rw [hzero] at h ⊢
    obtain rfl : rest = after := (List.cons.inj h).2
    have hstarts : startsWithDigit rest = false := by
      cases rest with
      | nil => rfl
      | cons d rest => exact hrest d rfl
    rw [hstarts]
    rfl
  · exact scanDigits_append Nat.toDigits_ne_nil (fun c hc => isDigit_of_mem_toDigits hc) hrest

theorem scanFraction_of_head (hrest : ∀ c ∈ rest.head?, c ≠ '.') :
    Numeral.scanFraction rest = .ok (none, rest) := by
  unfold Numeral.scanFraction
  split
  · exact absurd rfl (hrest '.' rfl)
  · rfl

theorem scanExponent_of_head (hrest : ∀ c ∈ rest.head?, c ≠ 'e' ∧ c ≠ 'E') :
    Numeral.scanExponent rest = .ok (none, rest) := by
  cases rest with
  | nil => rfl
  | cons c rest => rw [Numeral.scanExponent, if_neg (not_or.2 (hrest c rfl))]

def numeral (n : Nat) : Numeral := ⟨false, Nat.toDigits 10 n, none, none⟩

theorem scan_toDigits (n : Nat) (hrest : EndsNumeral rest) :
    Numeral.scan (Nat.toDigits 10 n ++ rest) = .ok (numeral n, rest) := by
  have hwhole := scanWhole_toDigits n fun c hc => (hrest c hc).1
  have hfraction := scanFraction_of_head fun c hc => (hrest c hc).2.1
  have hexponent := scanExponent_of_head fun c hc => (hrest c hc).2.2
  unfold Numeral.scan
  split
  · next after h =>
    -- a digit is no sign
    obtain ⟨d, ds, hds⟩ := List.exists_cons_of_ne_nil (@Nat.toDigits_ne_nil n 10)
    have hd : d.isDigit = true := isDigit_of_mem_toDigits (hds ▸ List.mem_cons_self)
    rw [hds] at h
    obtain rfl := (List.cons.inj h).1
    cases hd
  · exact Outcome.bind_eq_ok_iff.2 ⟨_, hwhole, Outcome.bind_eq_ok_iff.2 ⟨_, hfraction,
      Outcome.bind_eq_ok_iff.2 ⟨_, hexponent, rfl⟩⟩⟩

theorem tokens_number (n : Nat) (hrest : EndsNumeral rest) :
    tokens (Nat.toDigits 10 n ++ rest) = .number (numeral n).value none :: tokens rest := by
  obtain ⟨d, ds, hds⟩ := List.exists_cons_of_ne_nil (@Nat.toDigits_ne_nil n 10)
  have hd : d.isDigit = true := isDigit_of_mem_toDigits (hds ▸ List.mem_cons_self)
  have htext : Nat.toDigits 10 n ++ rest = d :: (ds ++ rest) := by
    rw [hds, List.cons_append]
  have hscan := scan_toDigits n hrest
  rw [htext] at hscan ⊢
  have hne : ∀ e : Char, e.isDigit = false → d ≠ e := fun _ => ne_of_isDigit hd
  have hspace : isSpace d = false := by
    simp [isSpace, hne ' ' rfl, hne '\t' rfl, hne '\n' rfl, hne '\r' rfl]
  have hmark : isMark d = false := by
    simp [isMark, hne '[' rfl, hne ']' rfl, hne '{' rfl, hne '}' rfl, hne ',' rfl, hne ':' rfl]
  have hfrom : tokenFrom d (ds ++ rest) = (.number (numeral n).value none, some rest) := by
    rw [tokenFrom, if_neg (hne '"' rfl), if_pos (by simp [hd]), hscan]
  exact tokens_of_tokenFrom hspace hmark hfrom

theorem value_numeral {n : Nat} (hn : n < Nat.pow 2 64) : (numeral n).value = .ok (some n) := by
  unfold numeral Numeral.value
  simp only [decimal_toDigits]
  rw [if_pos hn]
  rfl

/-! ### Values -/

mutual
def written : Json → List Token
  | .null => [.word true none]
  | .number n => [.number (numeral n).value none]
  | .text t => [.text (.ok t) none]
  | .array items => .mark '[' :: writtenItems items ++ [.mark ']']
  | .object fields => .mark '{' :: writtenFields fields ++ [.mark '}']

def writtenItems : List Json → List Token
  | [] => []
  | [item] => written item
  | item :: next :: items => written item ++ .mark ',' :: writtenItems (next :: items)

def writtenFields : List (Text × Json) → List Token
  | [] => []
  | [(key, value)] => .text (.ok key) none :: .mark ':' :: written value
  | (key, value) :: next :: fields =>
    .text (.ok key) none :: .mark ':' :: written value ++ .mark ',' :: writtenFields (next :: fields)
end

/-- A layout with nothing but blanks between the parts of a value. -/
structure Layout.Loose (l : Layout) : Prop where
  lineBreak : ∀ level, ∀ c ∈ l.lineBreak level, isSpace c = true
  colon : ∃ gap : Text, l.colon = ':' :: gap ∧ ∀ c ∈ gap, isSpace c = true

theorem Layout.loose_compact : Layout.compact.Loose := by
  refine ⟨fun _ c hc => ?_, [], rfl, by simp⟩
  cases hc

theorem Layout.loose_pretty : Layout.pretty.Loose := by
  refine ⟨fun level c hc => ?_, [' '], rfl, by simp [isSpace]⟩
  rcases List.mem_cons.1 hc with rfl | hc
  · rfl
  · rw [List.eq_of_mem_replicate hc]
    rfl

variable {l : Layout}

theorem Layout.Loose.tokens_lineBreak (hl : l.Loose) (level : Nat) (rest : Text) :
    tokens (l.lineBreak level ++ rest) = tokens rest :=
  tokens_spaces (hl.lineBreak level) rest

theorem Layout.Loose.tokens_colon (hl : l.Loose) (rest : Text) :
    tokens (l.colon ++ rest) = .mark ':' :: tokens rest := by
  obtain ⟨gap, hcolon, hgap⟩ := hl.colon
  rw [hcolon, List.cons_append, tokens_mark rfl, tokens_spaces hgap]

/-- No numeral goes on behind a line break, if none does behind what follows it. -/
theorem Layout.Loose.endsNumeral (hl : l.Loose) (level : Nat) (hrest : EndsNumeral rest) :
    EndsNumeral (l.lineBreak level ++ rest) := by
  cases h : l.lineBreak level with
  | nil => exact hrest
  | cons c t =>
    intro d hd
    obtain rfl := Option.some.inj hd
    have hc : isSpace c = true := hl.lineBreak level c (h ▸ List.mem_cons_self)
    simp only [isSpace, Bool.or_eq_true, decide_eq_true_eq] at hc
    rcases hc with ((rfl | rfl) | rfl) | rfl <;> decide

theorem endsNumeral_mark (hc : isMark c = true) (rest : Text) : EndsNumeral (c :: rest) := by
  intro d hd
  obtain rfl := Option.some.inj hd
  simp only [isMark, Bool.or_eq_true, decide_eq_true_eq] at hc
  rcases hc with ((((rfl | rfl) | rfl) | rfl) | rfl) | rfl <;> decide

/-- Brackets around what is cut into some tokens. -/
theorem Layout.Loose.tokens_brackets (hl : l.Loose) {opening closing : Char} {inner : Text}
    {ts : List Token} {level : Nat} (hopening : isMark opening = true)
    (hclosing : isMark closing = true)
    (hinner : ∀ rest, EndsNumeral rest → tokens (inner ++ rest) = ts ++ tokens rest)
    (rest : Text) :
    tokens (opening :: inner ++ l.lineBreak level ++ [closing] ++ rest) =
      .mark opening :: ts ++ [.mark closing] ++ tokens rest := by
  have hclose : EndsNumeral (l.lineBreak level ++ closing :: rest) :=
    hl.endsNumeral level (endsNumeral_mark hclosing rest)
  have hcut := hinner _ hclose
  rw [hl.tokens_lineBreak, tokens_mark hclosing] at hcut
  have hopen := tokens_mark hopening (inner ++ (l.lineBreak level ++ closing :: rest))
  rw [hcut] at hopen
  simpa using hopen

theorem Layout.Loose.tokens_key (hl : l.Loose) (level : Nat) (key rest : Text) :
    tokens (l.lineBreak level ++ quote key ++ l.colon ++ rest) =
      .text (.ok key) none :: .mark ':' :: tokens rest := by
  rw [List.append_assoc, List.append_assoc, hl.tokens_lineBreak, tokens_quote, hl.tokens_colon]

mutual
/-- A printed value is cut into the tokens of the value. -/
theorem tokens_render (hl : l.Loose) (level : Nat) (j : Json) {rest : Text}
    (hrest : EndsNumeral rest) :
    tokens (j.render l level ++ rest) = j.written ++ tokens rest := by
  match j with
  | .null => exact tokens_null rest
  | .number n => exact tokens_number n hrest
  | .text t => exact tokens_quote t rest
  | .array [] => exact (tokens_mark rfl _).trans (congrArg _ (tokens_mark rfl rest))
  | .array (item :: items) =>
    exact hl.tokens_brackets rfl rfl
      (fun _ hrest => tokens_renderItems hl (level + 1) (item :: items) hrest) rest
  | .object [] => exact (tokens_mark rfl _).trans (congrArg _ (tokens_mark rfl rest))
  | .object (field :: fields) =>
    exact hl.tokens_brackets rfl rfl
      (fun _ hrest => tokens_renderFields hl (level + 1) (field :: fields) hrest) rest
termination_by sizeOf j

theorem tokens_renderItems (hl : l.Loose) (level : Nat) (items : List Json) {rest : Text}
    (hrest : EndsNumeral rest) :
    tokens (renderItems l level items ++ rest) = writtenItems items ++ tokens rest := by
  match items with
  | [] => rfl
  | [item] =>
    rw [renderItems, List.append_assoc, hl.tokens_lineBreak, tokens_render hl level item hrest]
    rfl
  | item :: next :: items =>
    have hmore := tokens_renderItems hl level (next :: items) hrest
    have hcomma : isMark ',' = true := rfl
    have hitem := tokens_render hl level item
      (endsNumeral_mark hcomma (renderItems l level (next :: items) ++ rest))
    rw [tokens_mark hcomma, hmore] at hitem
    rw [renderItems, writtenItems, List.append_assoc, List.append_assoc, hl.tokens_lineBreak,
      List.cons_append, hitem, List.append_assoc, List.cons_append]
termination_by sizeOf items

theorem tokens_renderFields (hl : l.Loose) (level : Nat) (fields : List (Text × Json))
    {rest : Text} (hrest : EndsNumeral rest) :
    tokens (renderFields l level fields ++ rest) = writtenFields fields ++ tokens rest := by
  match fields with
  | [] => rfl
  | [(key, value)] =>
    rw [renderFields, List.append_assoc, hl.tokens_key, tokens_render hl level value hrest]
    rfl
  | (key, value) :: next :: fields =>
    have hmore := tokens_renderFields hl level (next :: fields) hrest
    have hcomma : isMark ',' = true := rfl
    have hvalue := tokens_render hl level value
      (endsNumeral_mark hcomma (renderFields l level (next :: fields) ++ rest))
    rw [tokens_mark hcomma, hmore] at hvalue
    rw [renderFields, writtenFields, List.append_assoc, List.append_assoc, hl.tokens_key,
      List.cons_append, hvalue]
    simp
termination_by sizeOf fields
end

end SassImports.Json
