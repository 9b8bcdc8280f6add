/-
  SassImports/Json/Numeral.lean
  =============================
  Numbers as JSON writes them. `scan` takes the longest numeral at the start of a text, and
  `Numeral.value` says what it is worth here: a natural number below 2^64, or some other number. A
  numeral beyond the largest double is no number at all.

  That limit is met in a fixed way. Leading digits are collected while they fit in 64 bits
  (`absorb`), all others only shift the decimal point; the collected number, rounded to a double, is
  multiplied by a power of ten, rounded likewise, and the product must stay below the midpoint between
  the largest double and the next power of two (`overflows`).
-/
import SassImports.Json
import SassImports.Outcome

namespace SassImports.Json

/-! ### Digits -/

/-- The value of a run of decimal digits, continued from `n`. -/
def decimal (n : Nat) (digits : Text) : Nat :=
  digits.foldl (fun n c => 10 * n + (c.toNat - '0'.toNat)) n

def startsWithDigit (t : Text) : Bool := t.head?.any Char.isDigit

structure Numeral where
  negative : Bool
  whole : Text
  /-- The digits after the point, if there is one. -/
  fraction? : Option Text
  /-- The sign and the digits of the exponent, if there is one. -/
  exponent? : Option (Bool × Text)
  deriving DecidableEq, Repr

/-! ### Recognising a numeral -/

/-- Why a text that starts like a numeral is none. -/
inductive Numeral.Break where
  | atEnd
  /-- Something else stands where a digit is needed, or a digit after a leading zero. -/
  | badCharacter
  deriving DecidableEq, Repr

namespace Numeral

/-- The digits at the start of a text, at least one, and what follows them. -/
def scanDigits : Text → Except Break (Text × Text)
  | [] => .error .atEnd
  | c :: rest =>
    if c.isDigit then .ok (c :: rest.takeWhile Char.isDigit, rest.dropWhile Char.isDigit)
    else .error .badCharacter

/-- The digits before the point: a lone zero, or digits that start with another one. -/
def scanWhole (t : Text) : Except Break (Text × Text) :=
  match t with
  | '0' :: rest => if startsWithDigit rest then .error .badCharacter else .ok (['0'], rest)
  | t => scanDigits t

def scanFraction : Text → Except Break (Option Text × Text)
  | '.' :: rest => (scanDigits rest).map fun (digits, rest) => (some digits, rest)
  | t => .ok (none, t)

/-- The sign of an exponent, taken as positive if there is none. -/
def scanSign : Text → Bool × Text
  | '-' :: rest => (true, rest)
  | '+' :: rest => (false, rest)
  | t => (false, t)

def scanExponent : Text → Except Break (Option (Bool × Text) × Text)
  | c :: rest =>
    if c = 'e' ∨ c = 'E' then
      (scanDigits (scanSign rest).2).map fun (digits, after) =>
        (some ((scanSign rest).1, digits), after)
    else .ok (none, c :: rest)
  | [] => .ok (none, [])

/-- The numeral at the start of a text after its sign, and what follows. -/
def scanUnsigned (negative : Bool) (t : Text) : Except Break (Numeral × Text) := do
  let (whole, t) ← scanWhole t
  let (fraction?, t) ← scanFraction t
  let (exponent?, t) ← scanExponent t
  return (⟨negative, whole, fraction?, exponent?⟩, t)

def scan : Text → Except Break (Numeral × Text)
  | '-' :: rest => scanUnsigned true rest
  | t => scanUnsigned false t

/-! Each of them leaves less than it was given, or as much. -/

theorem length_scanDigits {t digits rest : Text} (h : scanDigits t = .ok (digits, rest)) :
    rest.length < t.length := by
  unfold scanDigits at h
  split at h
  · cases h
  · next c rest' =>
    split at h
    · obtain ⟨-, rfl⟩ := Prod.mk.inj (Except.ok.inj h)
      have := (List.dropWhile_sublist Char.isDigit (l := rest')).length_le
      simp only [List.length_cons]
      omega
    · cases h

theorem length_scanWhole {t digits rest : Text} (h : scanWhole t = .ok (digits, rest)) :
    rest.length < t.length := by
  unfold scanWhole at h
  split at h
  · split at h
    · cases h
    · obtain ⟨-, rfl⟩ := Prod.mk.inj (Except.ok.inj h)
      simp
  · exact length_scanDigits h

theorem length_scanFraction {t rest : Text} {f : Option Text}
    (h : scanFraction t = .ok (f, rest)) : rest.length ≤ t.length := by
  unfold scanFraction at h
  split at h
  · next rest' =>
    obtain ⟨p, hd, he⟩ := Outcome.map_eq_ok_iff.1 h
    obtain ⟨-, rfl⟩ := Prod.mk.inj he
    have := length_scanDigits hd
    simp only [List.length_cons]
    omega
  · obtain ⟨-, rfl⟩ := Prod.mk.inj (Except.ok.inj h)
    exact Nat.le_refl _

theorem length_scanSign (t : Text) : (scanSign t).2.length ≤ t.length := by
  unfold scanSign
  split <;> simp

theorem length_scanExponent {t rest : Text} {e : Option (Bool × Text)}
    (h : scanExponent t = .ok (e, rest)) : rest.length ≤ t.length := by
  unfold scanExponent at h
  split at h
  · next c rest' =>
    split at h
    · obtain ⟨p, hd, he⟩ := Outcome.map_eq_ok_iff.1 h
      obtain ⟨-, rfl⟩ := Prod.mk.inj he
      have h₁ := length_scanDigits hd
      have h₂ := length_scanSign rest'
      simp only [List.length_cons]
      omega
    · obtain ⟨-, rfl⟩ := Prod.mk.inj (Except.ok.inj h)
      exact Nat.le_refl _
  · obtain ⟨-, rfl⟩ := Prod.mk.inj (Except.ok.inj h)
    exact Nat.le_refl _

theorem length_scanUnsigned {t rest : Text} {negative : Bool} {n : Numeral}
    (h : scanUnsigned negative t = .ok (n, rest)) : rest.length < t.length := by
  obtain ⟨whole, h₁, h⟩ := Outcome.bind_eq_ok_iff.1 h
  obtain ⟨fraction, h₂, h⟩ := Outcome.bind_eq_ok_iff.1 h
  obtain ⟨exponent, h₃, h⟩ := Outcome.bind_eq_ok_iff.1 h
  obtain ⟨-, rfl⟩ := Prod.mk.inj (Except.ok.inj h)
  have l₁ := length_scanWhole h₁
  have l₂ := length_scanFraction h₂
  have l₃ := length_scanExponent h₃
  omega

theorem length_scan {t rest : Text} {n : Numeral} (h : scan t = .ok (n, rest)) :
    rest.length < t.length := by
  unfold scan at h
  split at h
  · have := length_scanUnsigned h
    simp only [List.length_cons]
    omega
  · exact length_scanUnsigned h

/-! ### The limit of the doubles -/

/-- The digits of a text that still fit in 64 bits after `n`, as a number, and how many they are. -/
def absorb (n : Nat) : Text → Nat × Nat
  | [] => (n, 0)
  | c :: rest =>
    if decimal n [c] < Nat.pow 2 64 then
      let (m, count) := absorb (decimal n [c]) rest
      (m, count + 1)
    else (n, 0)

/-- The nearest number of 53 significant bits; of two that are equally near, the even one. -/
def roundToDouble (n : Nat) : Nat :=
  if n < Nat.pow 2 53 then n
  else
    let unit := Nat.pow 2 (n.log2 - 52)
    let quotient := n / unit
    let twice := 2 * (n % unit)
    if twice < unit ∨ (twice = unit ∧ quotient % 2 = 0) then quotient * unit
    else (quotient + 1) * unit

/-- Whether a number of at most 64 bits times a power of ten is beyond the largest double. -/
def productOverflows (significand : Nat) (exponent : Int) : Bool :=
  if significand = 0 ∨ exponent < 0 then false
  else if 308 < exponent then true
  else Nat.pow 2 1024 - Nat.pow 2 970 ≤
    roundToDouble significand * roundToDouble (Nat.pow 10 exponent.toNat)

def overflows (n : Numeral) : Bool :=
  let (whole, wholeCount) := absorb 0 n.whole
  let (significand, fractionCount) := absorb whole (n.fraction?.getD [])
  let shift : Int := (n.whole.length : Int) - wholeCount - fractionCount
  match n.exponent? with
  | none => productOverflows significand shift
  | some (true, digits) => productOverflows significand (shift - decimal 0 digits)
  | some (false, digits) => productOverflows significand (shift + decimal 0 digits)

/-- What the numeral is worth: a natural number below 2^64, or `none` for any other number. -/
def value (n : Numeral) : Except Fault (Option Nat) :=
  match n.fraction?, n.exponent? with
  | none, none =>
    if decimal 0 n.whole < Nat.pow 2 64 then
      .ok (if n.negative then none else some (decimal 0 n.whole))
    else if n.overflows then .error .notJson
    else .ok none
  | _, _ => if n.overflows then .error .notJson else .ok none

end Numeral
end SassImports.Json
