/-
  SassImports/Text.lean
  =====================
  Texts are lists of characters, so that every rule of this library is a recursion on its input.
  Core's `List.splitOn` and `List.intercalate` cut a text at every separator and put it together
  again; this module adds what works from the end, and the size of a text as it is stored.

  * `splitLast?` cuts at the last separator, and `splitLast?_eq_some` says that it is the last;
  * `trimEnd` and `trimStart` drop a run of one character;
  * `byteLength` counts bytes of UTF-8.
-/

namespace SassImports

/-- Text of any kind: a source, an import reference, a path, a message. -/
abbrev Text := List Char

namespace Text

/-! ### Cutting at the last separator -/

/-- The texts before and after the last `sep`, if there is one. -/
def splitLast? (sep : Char) : Text → Option (Text × Text)
  | [] => none
  | c :: cs =>
    match splitLast? sep cs with
    | some (before, after) => some (c :: before, after)
    | none => if c = sep then some ([], cs) else none

theorem splitLast?_eq_none_iff {sep : Char} {t : Text} : splitLast? sep t = none ↔ sep ∉ t := by
  induction t with
  | nil => simp [splitLast?]
  | cons c cs ih =>
    cases h : splitLast? sep cs with
    | some p => simp_all [splitLast?]
    | none =>
      by_cases hc : c = sep
      · simp [splitLast?, h, hc]
      · simp [splitLast?, h, hc, ih.1 h, Ne.symm hc]

/-- The cut is at a separator, and none comes after it. -/
theorem splitLast?_eq_some {sep : Char} {t before after : Text}
    (h : splitLast? sep t = some (before, after)) : t = before ++ sep :: after ∧ sep ∉ after := by
  induction t generalizing before with
  | nil => simp [splitLast?] at h
  | cons c cs ih =>
    cases hcs : splitLast? sep cs with
    | some p =>
      obtain ⟨b, a⟩ := p
      simp only [splitLast?, hcs, Option.some.injEq, Prod.mk.injEq] at h
      obtain ⟨rfl, rfl⟩ := h
      have hb := ih hcs
      exact ⟨by rw [hb.1, List.cons_append], hb.2⟩
    | none =>
      by_cases hc : c = sep
      · simp only [splitLast?, hcs, hc, if_true, Option.some.injEq, Prod.mk.injEq] at h
        obtain ⟨rfl, rfl⟩ := h
        exact ⟨by rw [hc, List.nil_append], splitLast?_eq_none_iff.1 hcs⟩
      · simp [splitLast?, hcs, hc] at h

/-! ### Dropping runs at either end -/

def trimStart (c : Char) (t : Text) : Text := t.dropWhile (· = c)

def trimEnd (c : Char) (t : Text) : Text := (t.reverse.dropWhile (· = c)).reverse

/-! ### Stored size -/

/-- The number of bytes of `t` in UTF-8. -/
def byteLength (t : Text) : Nat := t.foldr (fun c bytes => c.utf8Size + bytes) 0

end Text
end SassImports
