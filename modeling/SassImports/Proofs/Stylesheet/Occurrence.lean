/-
  SassImports/Proofs/Stylesheet/Occurrence.lean
  =============================================
  Where the references of a stylesheet stand.  Every reference is a piece of the text that is left
  once the comments are stripped, and the pieces come in the order of the references.

    * `Strung`: texts that stand one behind the other, with what holds of each and the text before it;
    * `Leftmost.strung` and `strung_bareWords`: the matches of a search stand so, and the first words
      between commas do;
    * `importReferences_occurrences`: the references stand so in the stripped text, each in a
      statement, without overlap.
-/
import SassImports.Proofs.Stylesheet.Recognition

namespace SassImports

open Stylesheet

/-! ### Occurrences -/

/-- A text that stands in another one, behind `before`. -/
structure Occurrence where
  before : Text
  text : Text
  deriving DecidableEq, Repr

namespace Occurrence

def position (o : Occurrence) : Nat := o.before.length

def stop (o : Occurrence) : Nat := o.position + o.text.length

def IsIn (t : Text) (o : Occurrence) : Prop := o.before ++ o.text <+: t

/-- The keyword comes before the text, followed by a space or a tab, and no semicolon or brace stands
    between the keyword and the end of the text. -/
def InStatement (o : Occurrence) : Prop :=
  ∃ (u : Text) (gap : Char) (v : Text), o.before = u ++ (Statement.keyword ++ gap :: v) ∧
    (gap = ' ' ∨ gap = '\t') ∧ ∀ c ∈ v ++ o.text, c ≠ ';' ∧ c ≠ '{' ∧ c ≠ '}'

end Occurrence

/-- The texts stand in the given one, which comes behind `before`: one behind the other, with gaps
    between them.  `P` holds of each of them where it stands. -/
inductive Strung (P : Occurrence → Prop) : Text → Text → List Text → Prop where
  | done {before t : Text} : Strung P before t []
  | next {before skipped x rest : Text} {xs : List Text} (holds : P ⟨before ++ skipped, x⟩)
      (more : Strung P (before ++ skipped ++ x) rest xs) :
      Strung P before (skipped ++ (x ++ rest)) (x :: xs)

namespace Strung

variable {P Q : Occurrence → Prop} {before t t' u : Text} {xs ys : List Text}

theorem skip (h : Strung P (before ++ u) t xs) : Strung P before (u ++ t) xs := by
  cases h with
  | done => exact .done
  | @next _ skipped x rest xs holds more =>
    rw [List.append_assoc before u skipped] at holds more
    rw [← List.append_assoc]
    exact .next holds more

theorem append (h : Strung P before t xs) (h' : Strung P (before ++ t) t' ys) :
    Strung P before (t ++ t') (xs ++ ys) := by
  induction h with
  | done => exact h'.skip
  | @next before skipped x rest xs holds _ ih =>
    have more := ih (by simpa using h')
    simpa using Strung.next holds more

/-- Some of the texts may be left out. -/
theorem sublist (h : Strung P before t xs) (hsub : ys.Sublist xs) : Strung P before t ys := by
  induction h generalizing ys with
  | done =>
    obtain rfl := List.sublist_nil.1 hsub
    exact .done
  | @next before skipped x rest xs holds more ih =>
    cases hsub with
    | cons _ hsub =>
      have hskip : Strung P before (skipped ++ x ++ rest) ys := by
        apply skip
        rw [← List.append_assoc]
        exact ih hsub
      rwa [List.append_assoc] at hskip
    | cons_cons _ hsub => exact .next holds (ih hsub)

theorem imp (h : Strung P before t xs)
    (himp : ∀ u x v, t = u ++ (x ++ v) → P ⟨before ++ u, x⟩ → Q ⟨before ++ u, x⟩) :
    Strung Q before t xs := by
  induction h with
  | done => exact .done
  | @next before skipped x rest xs holds _ ih =>
    refine .next (himp skipped x rest rfl holds) (ih fun u y v hrest hP => ?_)
    have hlast := himp (skipped ++ x ++ u) y v (by simp [hrest])
    simp only [← List.append_assoc] at hlast hP ⊢
    exact hlast hP

/-- The places of the texts, in order and without overlap. -/
theorem exists_occurrences (h : Strung P before t xs) :
    ∃ os : List Occurrence, os.map Occurrence.text = xs ∧
      (∀ o ∈ os, before.length ≤ o.position ∧ o.IsIn (before ++ t) ∧ P o) ∧
      os.Pairwise fun o o' => o.stop ≤ o'.position := by
  induction h with
  | done => exact ⟨[], rfl, by simp, .nil⟩
  | @next before skipped x rest xs holds _ ih =>
    obtain ⟨os, htexts, hos, hordered⟩ := ih
    refine ⟨⟨before ++ skipped, x⟩ :: os, by rw [List.map_cons, htexts], ?_, ?_⟩
    · refine List.forall_mem_cons.2 ⟨⟨?_, ?_, holds⟩, fun o ho => ?_⟩
      · simp [Occurrence.position]
      · exact ⟨rest, by simp⟩
      · obtain ⟨hposition, hin, hP⟩ := hos o ho
        refine ⟨?_, by simpa using hin, hP⟩
        simp only [List.length_append] at hposition
        omega
    · refine List.pairwise_cons.2 ⟨fun o ho => ?_, hordered⟩
      simpa [Occurrence.stop, Occurrence.position, Nat.add_assoc] using (hos o ho).1

end Strung

/-! ### Searches -/

/-- The matches of a search stand one behind the other, if each is a part of the text that it takes
    up. -/
theorem Leftmost.strung {matchesAt : Text → Text → Text → Prop} {t before : Text} {xs : List Text}
    (hpart : ∀ {t x rest}, matchesAt t x rest → ∃ u v : Text, t = u ++ (x ++ (v ++ rest)))
    (h : Leftmost matchesAt t xs) : Strung (fun _ => True) before t xs := by
  induction h generalizing before with
  | done _ => exact .done
  | next _ hmatch _ ih =>
    obtain ⟨u, v, rfl⟩ := hpart hmatch
    exact (Strung.next trivial ih.skip).skip

namespace Stylesheet

namespace Target

variable {t x after body before : Text}

theorem Names.exists_append (h : Names t x after) : ∃ u v : Text, t = u ++ (x ++ (v ++ after)) := by
  rcases h with ⟨lead, inner, trail, -, -, hinner, rfl⟩ | ⟨q, -, -, rfl⟩
  · rcases hinner with ⟨q, -, -, rfl⟩ | ⟨rfl, -⟩
    · exact ⟨"url(".toList ++ lead ++ [q], q :: (trail ++ [')']), by simp⟩
    · exact ⟨"url(".toList ++ lead, trail ++ [')'], by simp⟩
  · exact ⟨[q], [q], by simp⟩

theorem IsFirstWord.strung {piece word : Text} (h : IsFirstWord piece word) :
    Strung (fun _ => True) before piece [word] := by
  obtain ⟨-, -, lead, trail, -, -, rfl⟩ := h
  exact .next trivial .done

theorem strung_intercalate_cons {P : Occurrence → Prop} {piece : Text} {pieces xs ys : List Text}
    (hpiece : Strung P before piece xs)
    (hmore : ∀ before, Strung P before ([','].intercalate pieces) ys) :
    Strung P before ([','].intercalate (piece :: pieces)) (xs ++ ys) := by
  cases pieces with
  | nil =>
    have happend := hpiece.append (hmore _)
    simpa using happend
  | cons piece' pieces =>
    rw [List.intercalate_cons_cons, List.append_assoc]
    exact hpiece.append (hmore _).skip

theorem strung_bareWords {pieces words : List Text} (h : BareWords pieces words) (before : Text) :
    Strung (fun _ => True) before ([','].intercalate pieces) words := by
  induction h generalizing before with
  | nil => exact .done
  | word hword _ ih => exact strung_intercalate_cons hword.strung ih
  | blank _ _ ih => exact strung_intercalate_cons .done ih

theorem strung_ofBody (before body : Text) : Strung (fun _ => True) before body (ofBody body) := by
  rcases ofBody_eq_iff.1 (rfl : ofBody body = _) with ⟨h, -⟩ | ⟨-, h⟩
  · exact h.strung Names.exists_append
  · have hbare := strung_bareWords h before
    rwa [List.intercalate_splitOn] at hbare

end Target

namespace Statement

variable {t body after before : Text}

theorem isEnd_of_isGap {c : Char} (h : isGap c = true) : isEnd c = false := by
  have hc : c = ' ' ∨ c = '\t' := by simpa [isGap] using h
  rcases hc with rfl | rfl <;> rfl

theorem isEnd_eq_false_iff {c : Char} : isEnd c = false ↔ c ≠ ';' ∧ c ≠ '{' ∧ c ≠ '}' := by
  simp [isEnd, and_assoc]

/-- The targets of a statement stand in it. -/
theorem StandsAt.strung (h : StandsAt t body after) {xs : List Text}
    (hmore : ∀ before, Strung Occurrence.InStatement before after xs) (before : Text) :
    Strung Occurrence.InStatement before t (Target.ofBody body ++ xs) := by
  have hends : ∀ c ∈ body, isEnd c = false := by
    intro c hc
    obtain ⟨u, -, htake⟩ := standsAt_iff.1 h
    exact isEnd_of_mem_takeBody (by rw [htake]; exact hc)
  obtain ⟨gap, hne, hgap, -, rfl, -⟩ := h
  obtain ⟨c, gap, rfl⟩ := List.exists_cons_of_ne_nil hne
  obtain ⟨hc, hgap⟩ := List.forall_mem_cons.1 hgap
  have hbody : Strung Occurrence.InStatement (before ++ keyword ++ (c :: gap)) body
      (Target.ofBody body) := by
    refine (Target.strung_ofBody _ body).imp fun u x v hu _ => ?_
    refine ⟨before, c, gap ++ u, by simp, by simpa [isGap] using hc, fun d hd => ?_⟩
    rw [← isEnd_eq_false_iff]
    rcases List.mem_append.1 hd with hd | hd
    · rcases List.mem_append.1 hd with hd | hd
      · exact isEnd_of_isGap (hgap d hd)
      · exact hends d (by simp [hu, hd])
    · exact hends d (by simp [hu, hd])
  exact (hbody.append (hmore _)).skip.skip

end Statement

/-- The targets of all statements stand in their statements. -/
theorem strung_targets (t before : Text) : Strung Occurrence.InStatement before t (targets t) := by
  have h := Statement.leftmost_bodies t
  rw [targets]
  generalize Statement.bodies t = bodies at h
  induction h generalizing before with
  | done _ => exact .done
  | next _ hstands _ ih => exact (hstands.strung ih _).skip

/-! ### Repetitions -/

theorem eraseDups_sublist (xs : List Text) : xs.eraseDups.Sublist xs := by
  match xs with
  | [] => exact .slnil
  | x :: xs =>
    rw [List.eraseDups_cons]
    exact ((eraseDups_sublist (xs.filter (!· == x))).trans List.filter_sublist).cons_cons x
termination_by xs.length
decreasing_by exact Nat.lt_succ_of_le (List.length_filter_le _ _)

theorem nodup_eraseDups (xs : List Text) : xs.eraseDups.Nodup := by
  match xs with
  | [] => exact .nil
  | x :: xs =>
    rw [List.eraseDups_cons]
    refine List.nodup_cons.2 ⟨fun hx => ?_, nodup_eraseDups (xs.filter (!· == x))⟩
    simpa using (List.mem_filter.1 (List.mem_eraseDups.1 hx)).2
termination_by xs.length
decreasing_by exact Nat.lt_succ_of_le (List.length_filter_le _ _)

/-! ### References -/

theorem ne_nil_of_mem_importReferences {source : Text} {r : Reference}
    (hr : r ∈ importReferences source) : r ≠ [] := by
  obtain ⟨-, hne⟩ := List.mem_filter.1 (List.mem_eraseDups.1 hr)
  simpa using hne

theorem strung_importReferences (source : Text) :
    Strung Occurrence.InStatement [] (stripComments source) (importReferences source) :=
  (strung_targets (stripComments source) []).sublist
    ((eraseDups_sublist _).trans List.filter_sublist)

/-- **The references are pieces of the stripped text, in its order.**  None is empty, none comes
    twice, and none holds a semicolon or a brace.  Each has a place in the text without comments,
    behind the keyword of a statement that has not ended; the places of later references are further
    right, and no two of them overlap. -/
theorem importReferences_occurrences (source : Text) :
    (∀ r ∈ importReferences source, r ≠ [] ∧ ∀ c ∈ r, c ≠ ';' ∧ c ≠ '{' ∧ c ≠ '}') ∧
      (importReferences source).Nodup ∧
        ∃ os : List Occurrence, os.map Occurrence.text = importReferences source ∧
          (∀ o ∈ os, o.IsIn (stripComments source) ∧ o.InStatement) ∧
            os.Pairwise fun o o' => o.position < o'.position ∧ o.stop ≤ o'.position := by
  refine ⟨fun r hr => ⟨ne_nil_of_mem_importReferences hr, fun c hc => ?_⟩, nodup_eraseDups _, ?_⟩
  · exact Statement.isEnd_eq_false_iff.1 (isEnd_of_mem_importReferences hr hc)
  · obtain ⟨os, htexts, hos, hordered⟩ := (strung_importReferences source).exists_occurrences
    refine ⟨os, htexts, fun o ho => (hos o ho).2, hordered.imp_of_mem fun ho _ hstop => ?_⟩
    have hne := ne_nil_of_mem_importReferences (htexts ▸ List.mem_map_of_mem ho)
    have hlength := List.length_pos_iff.2 hne
    rw [Occurrence.stop] at hstop
    rw [Occurrence.stop]
    omega

end Stylesheet
end SassImports
