/-
  SassImports/Text/Blank.lean
  ===========================
  The characters with the Unicode property White_Space, and the first word of a text.

  * `isBlank` holds of twenty-five characters;
  * `firstWord?` is what stands between the first two runs of blanks.
-/
import SassImports.Text

namespace SassImports.Text

/-! ### The table -/

/-- The characters with the property White_Space, as ranges of code points. -/
def blankRanges : List (Nat × Nat) :=
  [(0x09, 0x0D), (0x20, 0x20), (0x85, 0x85), (0xA0, 0xA0), (0x1680, 0x1680), (0x2000, 0x200A),
    (0x2028, 0x2029), (0x202F, 0x202F), (0x205F, 0x205F), (0x3000, 0x3000)]

/-- Whether `c` is white space of any script. -/
def isBlank (c : Char) : Bool :=
  blankRanges.any fun (low, high) => low ≤ c.toNat && c.toNat ≤ high

/-! ### Words -/

def skipBlanks (t : Text) : Text := t.dropWhile isBlank

/-- The first maximal run of characters that are not blank. -/
def firstWord? (t : Text) : Option Text :=
  match (skipBlanks t).takeWhile (!isBlank ·) with
  | [] => none
  | word => some word

theorem firstWord?_ne_nil {t word : Text} (h : firstWord? t = some word) : word ≠ [] := by
  intro hw
  subst hw
  unfold firstWord? at h
  split at h <;> simp_all

end SassImports.Text
