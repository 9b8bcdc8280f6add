/-
  SassImports/Stylesheet/Target.lean
  ==================================
  Import targets in the body of a statement: quoted strings, `url(...)` with or without quotes, and,
  in a body without any of these, bare words between commas as the indented syntax has them.

    * `quotedTarget?` and `urlTarget?` recognise a target at the start of a text;
    * `quotedTargets` collects them from left to right;
    * `ofBody` falls back to `bareTargets`.
-/
import SassImports.Text.Blank

namespace SassImports.Stylesheet.Target

open Text (isBlank skipBlanks)

/-! ### One target -/

/-- The string at the start of a text, up to the next quote of the same kind, and what follows. -/
def quotedTarget? : Text → Option (Text × Text)
  | [] => none
  | q :: rest =>
    if q = '"' ∨ q = '\'' then
      match rest.dropWhile (· ≠ q) with
      | _ :: after => some (rest.takeWhile (· ≠ q), after)
      | [] => none
    else none

/-- Whether `c` may stand in a `url(...)` body without quotes. -/
def isUrlChar (c : Char) : Bool := !(c = ')' || c = '"' || c = '\'' || isBlank c)

/-- What follows the blanks and the parenthesis that close a `url(...)`. -/
def closeUrl? (t : Text) : Option Text :=
  match skipBlanks t with
  | ')' :: after => some after
  | _ => none

/-- What a `url(...)` names, a string or a possibly empty run, and what follows it. -/
def urlBody (t : Text) : Text × Text :=
  match quotedTarget? t with
  | some p => p
  | none => (t.takeWhile isUrlChar, t.dropWhile isUrlChar)

/-- The target of the `url(...)` at the start of a text, and what follows it. -/
def urlTarget? : Text → Option (Text × Text)
  | 'u' :: 'r' :: 'l' :: '(' :: rest =>
    let body := urlBody (skipBlanks rest)
    (closeUrl? body.2).map fun after => (body.1, after)
  | _ => none

def target? (t : Text) : Option (Text × Text) := (urlTarget? t).or (quotedTarget? t)

/-! ### The text that is left gets shorter -/

theorem length_quotedTarget? {t target after : Text} (h : quotedTarget? t = some (target, after)) :
    after.length < t.length := by
  unfold quotedTarget? at h
  split at h
  · simp at h
  · next q rest =>
    split at h
    · split at h
      · next hd =>
        obtain ⟨-, rfl⟩ := Prod.mk.inj (Option.some.inj h)
        have := (List.dropWhile_sublist (· ≠ q) (l := rest)).length_le
        rw [hd] at this
        simp only [List.length_cons] at this ⊢
        omega
      · simp at h
    · simp at h

theorem length_skipBlanks (t : Text) : (skipBlanks t).length ≤ t.length :=
  (List.dropWhile_sublist _).length_le

theorem length_closeUrl? {t after : Text} (h : closeUrl? t = some after) :
    after.length < t.length := by
  have := length_skipBlanks t
  unfold closeUrl? at h
  split at h
  · next hs =>
    obtain rfl := Option.some.inj h
    rw [hs, List.length_cons] at this
    omega
  · simp at h

theorem length_urlBody (t : Text) : (urlBody t).2.length ≤ t.length := by
  unfold urlBody
  split
  · next h => exact Nat.le_of_lt (length_quotedTarget? h)
  · exact (List.dropWhile_sublist _).length_le

theorem length_urlTarget? {t target after : Text} (h : urlTarget? t = some (target, after)) :
    after.length < t.length := by
  unfold urlTarget? at h
  split at h
  · next rest =>
    obtain ⟨after', hc, he⟩ := Option.map_eq_some_iff.1 h
    obtain ⟨-, rfl⟩ := Prod.mk.inj he
    have h₁ := length_closeUrl? hc
    have h₂ := length_urlBody (skipBlanks rest)
    have h₃ := length_skipBlanks rest
    simp only [List.length_cons]
    omega
  · simp at h

theorem length_target? {t target after : Text} (h : target? t = some (target, after)) :
    after.length < t.length := by
  rcases Option.or_eq_some_iff.1 h with h | ⟨-, h⟩
  · exact length_urlTarget? h
  · exact length_quotedTarget? h

/-! ### All targets of a body -/

def quotedTargets : Text → List Text
  | [] => []
  | c :: rest =>
    match _ : target? (c :: rest) with
    | some (target, after) =>
      target :: quotedTargets after
    | none => quotedTargets rest
termination_by t => t.length
decreasing_by
  · exact length_target? ‹_›
  · exact Nat.lt_succ_self _

/-- The first word of every piece between commas. -/
def bareTargets (body : Text) : List Text := (body.splitOn ',').filterMap Text.firstWord?

/-- The targets that a statement with this body names. Empty ones are still among them. -/
def ofBody (body : Text) : List Text :=
  match quotedTargets body with
  | [] => bareTargets body
  | targets => targets

end SassImports.Stylesheet.Target
