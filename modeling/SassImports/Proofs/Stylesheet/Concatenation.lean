/-
  SassImports/Proofs/Stylesheet/Concatenation.lean
  ================================================
  Extraction is compositional.  A semicolon ends every statement before it, and none begins with it;
  so the statements of two texts with a semicolon between them are those of the first text and then
  those of the second one.

    * `takeBody_append_cons` and `afterKeyword?_append_cons`: no body and no keyword reaches over the
      end of a statement;
    * `bodies_append_cons` and `targets_append_cons`: hence the search starts anew behind it;
    * `importReferences_append`: of the second source what is new is left.
-/
import SassImports.Proofs.Stylesheet.Body
import SassImports.Proofs.Stylesheet.Seam

namespace SassImports.Stylesheet

/-! ### Statements -/

namespace Statement

variable {t rest : Text} {e : Char}

theorem takeBody_append_cons (he : isEnd e = true) (afterComma : Bool) (t rest : Text) :
    takeBody afterComma (t ++ e :: rest) =
      ((takeBody afterComma t).1, (takeBody afterComma t).2 ++ e :: rest) := by
  induction t generalizing afterComma with
  | nil => simp [takeBody, he]
  | cons c t ih =>
    rw [List.cons_append, takeBody, takeBody, ih]
    split <;> rfl

/-- A word that does not contain the separator lies before it. -/
theorem exists_append_of_notMem {word after : Text} (he : e ∉ word)
    (h : t ++ e :: rest = word ++ after) : ∃ u, t = word ++ u ∧ after = u ++ e :: rest := by
  rcases List.append_eq_append_iff.1 h with ⟨u, rfl, hcons⟩ | ⟨u, rfl, rfl⟩
  · cases u with
    | nil => exact ⟨[], by simp, hcons.symm⟩
    | cons d u =>
      obtain rfl := (List.cons.inj hcons).1
      exact absurd (by simp) he
  · exact ⟨u, rfl, rfl⟩

theorem afterKeyword?_append_cons (he : isEnd e = true) (t rest : Text) :
    afterKeyword? (t ++ e :: rest) = (afterKeyword? t).map (· ++ e :: rest) := by
  have hend : isGap e = false ∧ e ∉ keyword := by
    rcases isEnd_iff.1 he with rfl | rfl | rfl <;> decide
  apply Option.ext
  intro after
  rw [Option.map_eq_some_iff, afterKeyword?_eq_some_iff]
  constructor
  · rintro ⟨gap, hne, hgap, hhead, htext⟩
    -- the end stands behind keyword and gap, since it is in neither of them
    have hnotMem : e ∉ keyword ++ gap := by
      intro he
      rcases List.mem_append.1 he with he | he
      · exact hend.2 he
      · exact absurd (hgap e he) (by simp [hend.1])
    rw [← List.append_assoc] at htext
    obtain ⟨u, rfl, rfl⟩ := exists_append_of_notMem hnotMem htext
    refine ⟨u, afterKeyword?_eq_some_iff.2 ⟨gap, hne, hgap, ?_, List.append_assoc _ _ _⟩, rfl⟩
    cases u with
    | nil => simp
    | cons c u => exact hhead
  · rintro ⟨u, hu, rfl⟩
    obtain ⟨gap, hne, hgap, hhead, rfl⟩ := afterKeyword?_eq_some_iff.1 hu
    refine ⟨gap, hne, hgap, ?_, by simp⟩
    cases u with
    | nil => simpa using hend.1
    | cons c u => exact hhead

theorem bodies_append_cons (he : isEnd e = true) (t rest : Text) :
    bodies (t ++ e :: rest) = bodies t ++ bodies rest := by
  induction t using bodies.induct with
  | case1 =>
    rw [bodies_nil, List.nil_append, List.nil_append, bodies_cons_of_none]
    apply afterKeyword?_eq_none
    rcases isEnd_iff.1 he with rfl | rfl | rfl <;> decide
  | case2 c t after hafter ih =>
    have hafter' := afterKeyword?_append_cons he (c :: t) rest
    rw [hafter, Option.map_some] at hafter'
    rw [bodies_of_some hafter', bodies_of_some hafter, takeBody_append_cons he, ih]
    rfl
  | case3 c t hnone ih =>
    have hnone' := afterKeyword?_append_cons he (c :: t) rest
    rw [hnone, Option.map_none] at hnone'
    rw [bodies_cons_of_none hnone, ← ih]
    exact bodies_cons_of_none hnone'

end Statement

theorem targets_append_cons {e : Char} (he : Statement.isEnd e = true) (t rest : Text) :
    targets (t ++ e :: rest) = targets t ++ targets rest := by
  rw [targets, Statement.bodies_append_cons he, List.flatMap_append]
  rfl

/-! ### Repetitions -/

/-- Dropping some texts and dropping repetitions may be exchanged. -/
theorem eraseDups_filter (p : Text → Bool) (xs : List Text) :
    (xs.filter p).eraseDups = xs.eraseDups.filter p := by
  match xs with
  | [] => rfl
  | x :: xs =>
    have hothers := eraseDups_filter p (xs.filter (!· == x))
    rw [List.eraseDups_cons]
    cases hx : p x with
    | true =>
      rw [List.filter_cons_of_pos hx, List.filter_cons_of_pos hx, List.eraseDups_cons, ← hothers,
        List.filter_filter, List.filter_filter]
      simp only [Bool.and_comm]
    | false =>
      -- `x` is dropped, so that it does not matter that its repetitions are
      have hsame : (xs.filter (!· == x)).filter p = xs.filter p := by
        rw [List.filter_filter]
        apply List.filter_congr
        intro y _
        by_cases hy : y = x <;> simp [hy, hx]
      rw [List.filter_cons_of_neg (by simp [hx]), List.filter_cons_of_neg (by simp [hx]), ← hothers,
        hsame, eraseDups_filter p xs]
termination_by xs.length
decreasing_by
  · exact Nat.lt_succ_of_le (List.length_filter_le _ _)
  · exact Nat.lt_succ_self _

/-- Of the second list what is new is left. -/
theorem eraseDups_append (xs ys : List Text) :
    (xs ++ ys).eraseDups = xs.eraseDups ++ ys.eraseDups.filter (· ∉ xs.eraseDups) := by
  rw [List.eraseDups_append, List.removeAll, eraseDups_filter]
  congr 2
  funext y
  simp

/-! ### Sources -/

theorem leaves_semicolon {rest : Text} :
    Comment.Leaves ([';'] ++ ['\n']) ";\n".toList rest :=
  Comment.Leaves.plain (by simp) (by simp)

/-- **Extraction is compositional.**  The references of two sources with a semicolon and a newline
    between them are those of the first source and then those of the second one that are new, if the
    first source ends in code. -/
theorem importReferences_append {a : Text} (ha : EndsInCode a) (b : Text) :
    importReferences (a ++ ";\n".toList ++ b) =
      importReferences a ++ (importReferences b).filter (· ∉ importReferences a) := by
  have hseam : Comment.Seam a ([';'] ++ ['\n'] ++ b) := by
    intro _ c hc
    obtain rfl := Option.some.inj hc
    decide
  have hstrip : stripComments (a ++ ";\n".toList ++ b) =
      stripComments a ++ ';' :: '\n' :: stripComments b := by
    have h := stripComments_around ha hseam leaves_semicolon (by decide)
    simpa using h
  have hnewline : targets ('\n' :: stripComments b) = targets (stripComments b) := by
    rw [targets, Statement.bodies_cons_of_none rfl]
    rfl
  rw [importReferences, hstrip, targets_append_cons rfl, hnewline, List.filter_append,
    eraseDups_append]
  rfl

/-- The list of the first source is not continued, and its last word opens no `url(...)`. -/
theorem importReferences_append_cut :
    EndsInCode "@import 'a', url".toList ∧
      importReferences ("@import 'a', url".toList ++ ";\n".toList ++
          "(//b);\n'b'; @import 'a', 'c'".toList) =
        importReferences "@import 'a', url".toList ++
          (importReferences "(//b);\n'b'; @import 'a', 'c'".toList).filter
            (· ∉ importReferences "@import 'a', url".toList) :=
  ⟨by decide, importReferences_append (by decide) _⟩

end SassImports.Stylesheet
