/-
  SassImports/Proofs/Stylesheet/LineEnding.lean
  =============================================
  Line endings do not matter.  A source is read once as it is and once with a carriage return before
  every newline.  The texts that the two runs see are not images of each other, since a line comment
  takes its carriage return with it; but each is the other one with a carriage return before some
  newlines, and a body that a newline ends has one more at its end (`Returned`).

    * `returned_strip`: the comment scanner is in the same mode behind both line endings;
    * `forall₂_bodies`: the bodies of the two texts are related one by one;
    * `quotedTargets_eq` and `bareTargets_eq`: a carriage return next to a newline is a blank between
      targets, unless a target contains the newline;
    * `importReferences_withReturns`: hence the references are the same.
-/
import Mathlib.Data.List.Forall2
import SassImports.Proofs.Stylesheet.Recognition
import SassImports.Proofs.Stylesheet.Seam

namespace SassImports.Stylesheet

open Text (isBlank skipBlanks)

def withReturns (t : Text) : Text := t.flatMap fun c => if c = '\n' then ['\r', '\n'] else [c]

/-- The second text is the first one with a carriage return before some of its newlines, and maybe
    one where it ends. -/
inductive Returned : Text → Text → Prop where
  | nil : Returned [] []
  | cut : Returned [] ['\r']
  | keep {t t' : Text} (c : Char) (h : Returned t t') : Returned (c :: t) (c :: t')
  | line {t t' : Text} (h : Returned t t') : Returned ('\n' :: t) ('\r' :: '\n' :: t')

namespace Returned

variable {t t' u u' w : Text} {c : Char} {p : Char → Bool}

/-! ### Parts of related texts -/

theorem cons_iff (hc : c ≠ '\n') : Returned (c :: t) t' ↔ ∃ u', t' = c :: u' ∧ Returned t u' := by
  constructor
  · intro h
    cases h with
    | keep c h => exact ⟨_, rfl, h⟩
    | line h => exact absurd rfl hc
  · rintro ⟨u', rfl, h⟩
    exact .keep c h

theorem of_cons_right (hline : c ≠ '\n') (hreturn : c ≠ '\r') (h : Returned t (c :: t')) :
    ∃ u, t = c :: u ∧ Returned u t' := by
  cases h with
  | cut => exact absurd rfl hreturn
  | keep c h => exact ⟨_, rfl, h⟩
  | line h => exact absurd rfl hreturn

theorem append_iff (hw : '\n' ∉ w) :
    Returned (w ++ t) t' ↔ ∃ u', t' = w ++ u' ∧ Returned t u' := by
  induction w generalizing t' with
  | nil => simp
  | cons c w ih =>
    rw [List.mem_cons, not_or] at hw
    rw [List.cons_append, cons_iff (Ne.symm hw.1)]
    constructor
    · rintro ⟨v', rfl, hv⟩
      obtain ⟨u', rfl, hu⟩ := (ih hw.2).1 hv
      exact ⟨u', rfl, hu⟩
    · rintro ⟨u', rfl, hu⟩
      exact ⟨w ++ u', rfl, (ih hw.2).2 ⟨u', rfl, hu⟩⟩

theorem of_append_right (hline : '\n' ∉ w) (hreturn : '\r' ∉ w) (h : Returned t (w ++ t')) :
    ∃ u, t = w ++ u ∧ Returned u t' := by
  induction w generalizing t with
  | nil => exact ⟨t, rfl, h⟩
  | cons c w ih =>
    rw [List.mem_cons, not_or] at hline hreturn
    obtain ⟨v, rfl, hv⟩ := of_cons_right (Ne.symm hline.1) (Ne.symm hreturn.1) h
    obtain ⟨u, rfl, hu⟩ := ih hline.2 hreturn.2 hv
    exact ⟨u, rfl, hu⟩

theorem mem_of_mem (h : Returned t t') (hc : c ∈ t') (hreturn : c ≠ '\r') : c ∈ t := by
  induction h with
  | nil => exact hc
  | cut => exact absurd (List.mem_singleton.1 hc) hreturn
  | keep d h ih =>
    rcases List.mem_cons.1 hc with rfl | hc
    · exact List.mem_cons_self
    · exact List.mem_cons_of_mem d (ih hc)
  | line h ih =>
    rcases List.mem_cons.1 hc with rfl | hc
    · exact absurd rfl hreturn
    · rcases List.mem_cons.1 hc with rfl | hc
      · exact List.mem_cons_self
      · exact List.mem_cons_of_mem _ (ih hc)

/-- A part that something follows is the same in both texts, unless it contains a newline. -/
theorem of_append_cons (hc : c ≠ '\n') (h : Returned (t ++ c :: u) w) :
    ∃ t' u', w = t' ++ c :: u' ∧ Returned t t' ∧ ('\n' ∉ t → t' = t) ∧ Returned u u' := by
  induction t generalizing w with
  | nil =>
    obtain ⟨u', rfl, hu⟩ := (cons_iff hc).1 h
    exact ⟨[], u', rfl, .nil, fun _ => rfl, hu⟩
  | cons d t ih =>
    cases h with
    | keep d h =>
      obtain ⟨t', u', rfl, ht, hplain, hu⟩ := ih h
      refine ⟨d :: t', u', rfl, .keep d ht, fun hd => ?_, hu⟩
      rw [hplain (mt (List.mem_cons_of_mem d) hd)]
    | line h =>
      obtain ⟨t', u', rfl, ht, -, hu⟩ := ih h
      exact ⟨'\r' :: '\n' :: t', u', rfl, .line ht, fun hd => absurd List.mem_cons_self hd, hu⟩

/-- Whether a text begins with a character of a class without newline and carriage return. -/
theorem head?_iff (hline : p '\n' = false) (hreturn : p '\r' = false) (h : Returned t t') :
    (∀ c ∈ t.head?, p c = false) ↔ ∀ c ∈ t'.head?, p c = false := by
  cases h with
  | nil => rfl
  | cut => simp [hreturn]
  | keep c h => rfl
  | line h => simp [hline, hreturn]

/-- Runs of characters to which newline and carriage return belong both, or neither. -/
theorem dropWhile (hp : p '\r' = p '\n') (h : Returned t t') :
    Returned (t.dropWhile p) (t'.dropWhile p) := by
  induction h with
  | nil => exact .nil
  | cut =>
    cases hreturn : p '\r' with
    | true =>
      rw [List.dropWhile_cons_of_pos hreturn]
      exact .nil
    | false =>
      rw [List.dropWhile_cons_of_neg (by simp [hreturn])]
      exact .cut
  | keep c h ih =>
    cases hc : p c with
    | true =>
      rw [List.dropWhile_cons_of_pos hc, List.dropWhile_cons_of_pos hc]
      exact ih
    | false =>
      rw [List.dropWhile_cons_of_neg (by simp [hc]), List.dropWhile_cons_of_neg (by simp [hc])]
      exact .keep c h
  | line h ih =>
    cases hline : p '\n' with
    | true =>
      rw [hline] at hp
      rw [List.dropWhile_cons_of_pos hline, List.dropWhile_cons_of_pos hp,
        List.dropWhile_cons_of_pos hline]
      exact ih
    | false =>
      rw [hline] at hp
      rw [List.dropWhile_cons_of_neg (by simp [hline]), List.dropWhile_cons_of_neg (by simp [hp])]
      exact .line h

theorem takeWhile_eq (hline : p '\n' = false) (hreturn : p '\r' = false) (h : Returned t t') :
    t'.takeWhile p = t.takeWhile p := by
  induction h with
  | nil => rfl
  | cut => simp [hreturn]
  | keep c h ih => rw [List.takeWhile_cons, List.takeWhile_cons, ih]
  | line h ih => simp [hline, hreturn]

theorem skipBlanks (h : Returned t t') : Returned (Text.skipBlanks t) (Text.skipBlanks t') :=
  h.dropWhile rfl

end Returned

/-! ### The comment scanner -/

theorem ne_of_quote {quote : Char} (h : quote = '"' ∨ quote = '\'') :
    quote ≠ '\n' ∧ quote ≠ '\r' := by
  rcases h with rfl | rfl <;> decide

namespace Comment

variable {mode : Mode} {before t : Text} {c : Char}

/-- The quote that a string waits for is one. -/
def Mode.Proper : Mode → Prop
  | .quoted _ quote | .escaped _ quote => quote = '"' ∨ quote = '\''
  | _ => True

theorem Mode.Proper.of_step {next : Mode} {kept : Bool} {next? : Option Char} (h : mode.Proper)
    (hstep : mode.step before c next? = (next, kept)) : next.Proper := by
  have hnext : (mode.step before c next?).1.Proper := by
    match mode, h with
    | .plain .code, _ =>
      simp only [Mode.step]
      split
      · assumption
      · repeat' split
        all_goals trivial
    | .plain .url, _ =>
      simp only [Mode.step]
      split
      · assumption
      · split <;> trivial
    | .quoted ground quote, h =>
      simp only [Mode.step]
      split
      · exact h
      · split
        · trivial
        · exact h
    | .escaped ground quote, h => exact h
    | .opening, _ => trivial
    | .block, _ | .star, _ | .line, _ =>
      simp only [Mode.step]
      repeat' split
      all_goals trivial
  rw [hstep] at hnext
  exact hnext

/-- Behind a carriage return and a newline the scanner is where it is behind the newline alone, and
    it keeps the carriage return only with the newline. -/
theorem Mode.Proper.step_newline (h : mode.Proper) (before : Text) (next? : Option Char) :
    ∃ next kept mid kept', mode.step before '\n' next? = (next, kept) ∧
      mode.step before '\r' (some '\n') = (mid, kept') ∧
      (∀ before next?, mid.step before '\n' next? = (next, kept)) ∧
      (kept' = true → kept = true) := by
  match mode, h with
  | .plain .code, _ => exact ⟨.plain .code, true, .plain .code, true, rfl, rfl, fun _ _ => rfl, id⟩
  | .plain .url, _ => exact ⟨.plain .url, true, .plain .url, true, rfl, rfl, fun _ _ => rfl, id⟩
  | .quoted ground quote, h =>
    have hquote := ne_of_quote h
    refine ⟨.quoted ground quote, true, .quoted ground quote, true, ?_, ?_, fun _ _ => ?_, id⟩
    · simp [Mode.step, Ne.symm hquote.1]
    · simp [Mode.step, Ne.symm hquote.2]
    · simp [Mode.step, Ne.symm hquote.1]
  | .escaped ground quote, h =>
    have hquote := ne_of_quote h
    refine ⟨.quoted ground quote, true, .quoted ground quote, true, rfl, rfl, fun _ _ => ?_, id⟩
    simp [Mode.step, Ne.symm hquote.1]
  | .opening, _ => exact ⟨.block, false, .block, false, rfl, rfl, fun _ _ => rfl, id⟩
  | .block, _ => exact ⟨.block, false, .block, false, rfl, rfl, fun _ _ => rfl, id⟩
  | .star, _ => exact ⟨.block, false, .block, false, rfl, rfl, fun _ _ => rfl, id⟩
  -- a line comment swallows the carriage return
  | .line, _ => exact ⟨.plain .code, true, .line, false, rfl, rfl, fun _ _ => rfl, fun _ => rfl⟩

theorem step_withReturns (before : Text) (c : Char) (t : Text) :
    mode.step before c (withReturns t).head? = mode.step before c t.head? := by
  cases t with
  | nil => rfl
  | cons d t =>
    by_cases hd : d = '\n'
    · subst hd
      have hline : ∀ e ∈ ('\n' :: t).head?, e ≠ '*' ∧ e ≠ '/' := by simp
      have hreturn : ∀ e ∈ (withReturns ('\n' :: t)).head?, e ≠ '*' ∧ e ≠ '/' := by
        simp [withReturns]
      rw [step_of_apart fun _ => hline, step_of_apart fun _ => hreturn]
    · simp [withReturns, hd]

/-- One line ending.  What stands before it is not looked at behind it. -/
theorem Mode.Proper.returned_newline (h : mode.Proper) (before : Text) {t t' : Text}
    (hrest : ∀ (next : Mode) (before : Text), next.Proper →
      Returned (strip next before t) (strip next before t')) :
    Returned (strip mode before ('\n' :: t)) (strip mode before ('\r' :: '\n' :: t')) := by
  obtain ⟨next, kept, mid, kept', hstep, hreturn, hline, hkept⟩ := h.step_newline before t.head?
  have hforget : ∀ before : Text, strip next ('\n' :: before) t' = strip next [] t' :=
    fun before => strip_forget (by decide) next [] before t'
  have hbehind : Returned (strip next ('\n' :: before) t)
      (strip next ('\n' :: '\r' :: before) t') := by
    rw [hforget, ← hforget before]
    exact hrest next _ (h.of_step hstep)
  cases kept' with
  | true =>
    obtain rfl := hkept rfl
    rw [strip_keep hstep, strip_keep hreturn, strip_keep (hline _ _)]
    exact .line hbehind
  | false =>
    rw [strip_drop hreturn]
    cases kept with
    | true =>
      rw [strip_keep hstep, strip_keep (hline _ _)]
      exact .keep _ hbehind
    | false =>
      rw [strip_drop hstep, strip_drop (hline _ _)]
      exact hbehind

/-- What is left of a source is related to what is left of it with carriage returns. -/
theorem returned_strip (h : mode.Proper) (before t : Text) :
    Returned (strip mode before t) (strip mode before (withReturns t)) := by
  induction t generalizing mode before with
  | nil => exact .nil
  | cons c t ih =>
    by_cases hc : c = '\n'
    · subst hc
      exact h.returned_newline before fun next before hnext => ih hnext before
    · obtain ⟨next, kept, hstep⟩ : ∃ next kept, mode.step before c t.head? = (next, kept) :=
        ⟨_, _, rfl⟩
      have hstep' := (step_withReturns before c t).trans hstep
      have hcons : withReturns (c :: t) = c :: withReturns t := by
        rw [withReturns, List.flatMap_cons, if_neg hc]
        rfl
      rw [hcons]
      cases kept with
      | true =>
        rw [strip_keep hstep, strip_keep hstep']
        exact .keep c (ih (h.of_step hstep) _)
      | false =>
        rw [strip_drop hstep, strip_drop hstep']
        exact ih (h.of_step hstep) _

end Comment

/-! ### Answers that are related -/

section

variable {α β : Type} {R : α → β → Prop} {a : α} {answer : Option β}

theorem rel_some_iff : Option.Rel R (some a) answer ↔ ∃ b, answer = some b ∧ R a b := by
  constructor
  · intro h
    cases h with
    | some h => exact ⟨_, rfl, h⟩
  · rintro ⟨b, rfl, h⟩
    exact .some h

theorem rel_none_iff : Option.Rel R none answer ↔ answer = none := by
  constructor
  · intro h
    cases h with
    | none => rfl
  · rintro rfl
    exact .none

end

/-! ### Bodies -/

namespace Statement

variable {t t' : Text}

theorem rel_afterKeyword? (h : Returned t t') :
    Option.Rel Returned (afterKeyword? t) (afterKeyword? t') := by
  have hgapLine : ∀ gap : Text, (∀ c ∈ gap, isGap c = true) → '\n' ∉ gap ∧ '\r' ∉ gap := by
    intro gap hgap
    constructor
    · exact fun hmem => absurd (hgap _ hmem) (by decide)
    · exact fun hmem => absurd (hgap _ hmem) (by decide)
  cases hafter : afterKeyword? t with
  | some u =>
    obtain ⟨gap, hne, hgap, hhead, rfl⟩ := afterKeyword?_eq_some_iff.1 hafter
    obtain ⟨v, rfl, hv⟩ := (Returned.append_iff (by decide)).1 h
    obtain ⟨u', rfl, hu⟩ := (Returned.append_iff (hgapLine gap hgap).1).1 hv
    rw [afterKeyword?_eq_some hne hgap ((hu.head?_iff rfl rfl).1 hhead)]
    exact .some hu
  | none =>
    cases hafter' : afterKeyword? t' with
    | none => exact .none
    | some u' =>
      obtain ⟨gap, hne, hgap, hhead, rfl⟩ := afterKeyword?_eq_some_iff.1 hafter'
      obtain ⟨v, rfl, hv⟩ := Returned.of_append_right (by decide) (by decide) h
      obtain ⟨u, rfl, hu⟩ :=
        Returned.of_append_right (hgapLine gap hgap).1 (hgapLine gap hgap).2 hv
      rw [afterKeyword?_eq_some hne hgap ((hu.head?_iff rfl rfl).2 hhead)] at hafter
      cases hafter

theorem returned_takeBody (afterComma : Bool) (h : Returned t t') :
    Returned (takeBody afterComma t).1 (takeBody afterComma t').1 ∧
      Returned (takeBody afterComma t).2 (takeBody afterComma t').2 := by
  induction h generalizing afterComma with
  | nil => exact ⟨.nil, .nil⟩
  | cut => exact ⟨.cut, .nil⟩
  | keep c h ih =>
    rw [takeBody, takeBody]
    split
    · exact ⟨.nil, .keep c h⟩
    · obtain ⟨hbody, hafter⟩ := ih (c = ',' || (afterComma && isBlank c))
      exact ⟨.keep c hbody, hafter⟩
  | line h ih =>
    cases afterComma with
    -- the newline ends the body, and the carriage return before it is already in
    | false => exact ⟨.cut, .keep _ h⟩
    | true =>
      obtain ⟨hbody, hafter⟩ := ih true
      exact ⟨.line hbody, hafter⟩

theorem forall₂_bodies (h : Returned t t') : List.Forall₂ Returned (bodies t) (bodies t') := by
  induction t using bodies.induct generalizing t' with
  | case1 =>
    have hnone : bodies t' = [] := by
      cases h with
      | nil => exact bodies_nil
      | cut => exact (@bodies_append ['\r'] (by simp) []).trans bodies_nil
    rw [bodies_nil, hnone]
    exact .nil
  | case2 c t u hu ih =>
    have hrel := rel_afterKeyword? h
    rw [hu] at hrel
    obtain ⟨u', hu', hafter⟩ := rel_some_iff.1 hrel
    obtain ⟨hbody, hrest⟩ := returned_takeBody false hafter
    rw [bodies_of_some hu, bodies_of_some hu']
    exact .cons hbody (ih hrest)
  | case3 c t hnone ih =>
    have hrel := rel_afterKeyword? h
    rw [bodies_cons_of_none hnone]
    cases h with
    | keep c h =>
      rw [hnone] at hrel
      rw [bodies_cons_of_none (rel_none_iff.1 hrel)]
      exact ih h
    | @line _ t' h =>
      -- neither of the two begins a keyword
      have hskip : bodies (['\r', '\n'] ++ t') = bodies t' := bodies_append (by simp) t'
      show List.Forall₂ Returned (bodies t) (bodies (['\r', '\n'] ++ t'))
      rw [hskip]
      exact ih h

end Statement

/-! ### Targets -/

namespace Target

variable {t t' x : Text}

/-- A target and what follows it, in both texts: the target is the same unless it contains a
    newline. -/
def Agree (p p' : Text × Text) : Prop := ('\n' ∉ p.1 → p'.1 = p.1) ∧ Returned p.2 p'.2

theorem rel_quotedTarget? (h : Returned t t') :
    Option.Rel Agree (quotedTarget? t) (quotedTarget? t') := by
  cases hquoted : quotedTarget? t with
  | some p =>
    obtain ⟨q, hq, hx, rfl⟩ := quotedTarget?_eq_some_iff.1 hquoted
    have hline := ne_of_quote hq
    obtain ⟨v, rfl, hv⟩ := (Returned.cons_iff hline.1).1 h
    obtain ⟨x', after', rfl, hreturned, hplain, hafter⟩ := Returned.of_append_cons hline.1 hv
    have hx' : q ∉ x' := fun hmem => hx (hreturned.mem_of_mem hmem hline.2)
    rw [quotedTarget?_eq_some_iff.2 ⟨q, hq, hx', rfl⟩]
    exact .some ⟨hplain, hafter⟩
  | none =>
    cases hquoted' : quotedTarget? t' with
    | none => exact .none
    | some p =>
      obtain ⟨q, hq, hx, rfl⟩ := quotedTarget?_eq_some_iff.1 hquoted'
      have hline := ne_of_quote hq
      obtain ⟨v, rfl, hv⟩ := Returned.of_cons_right hline.1 hline.2 h
      -- the quote that ends the string stands in both texts
      have hmem : q ∈ v := hv.mem_of_mem (List.mem_append_right _ List.mem_cons_self) hline.2
      obtain ⟨y, after, rfl, hy⟩ := List.eq_append_cons_of_mem hmem
      rw [quotedTarget?_eq_some_iff.2 ⟨q, hq, hy, rfl⟩] at hquoted
      cases hquoted

theorem agree_urlBody (h : Returned t t') : Agree (urlBody t) (urlBody t') := by
  have hrel := rel_quotedTarget? h
  unfold urlBody
  generalize quotedTarget? t = o at hrel ⊢
  generalize quotedTarget? t' = o' at hrel ⊢
  cases hrel with
  | some hagree => exact hagree
  | none => exact ⟨fun _ => h.takeWhile_eq rfl rfl, h.dropWhile rfl⟩

theorem rel_closeUrl? (h : Returned t t') : Option.Rel Returned (closeUrl? t) (closeUrl? t') := by
  have hskip := h.skipBlanks
  unfold closeUrl?
  generalize skipBlanks t = u at hskip ⊢
  generalize skipBlanks t' = u' at hskip ⊢
  cases hskip with
  | nil | cut | line => exact .none
  | keep c hafter =>
    by_cases hc : c = ')'
    · subst hc
      exact .some hafter
    · simp [hc]

theorem rel_urlTarget? (h : Returned t t') :
    Option.Rel Agree (urlTarget? t) (urlTarget? t') := by
  by_cases hurl : ∃ rest, t = "url(".toList ++ rest
  · obtain ⟨rest, rfl⟩ := hurl
    obtain ⟨rest', rfl, hrest⟩ := (Returned.append_iff (by decide)).1 h
    have hbody := agree_urlBody hrest.skipBlanks
    have hclose := rel_closeUrl? hbody.2
    show Option.Rel Agree
      ((closeUrl? (urlBody (skipBlanks rest)).2).map fun after =>
        ((urlBody (skipBlanks rest)).1, after))
      ((closeUrl? (urlBody (skipBlanks rest')).2).map fun after =>
        ((urlBody (skipBlanks rest')).1, after))
    generalize closeUrl? (urlBody (skipBlanks rest)).2 = o at hclose ⊢
    generalize closeUrl? (urlBody (skipBlanks rest')).2 = o' at hclose ⊢
    cases hclose with
    | none => exact .none
    | some hafter => exact .some ⟨hbody.1, hafter⟩
  · have hurl' : ∀ rest', t' ≠ "url(".toList ++ rest' := by
      rintro rest' rfl
      obtain ⟨rest, rfl, -⟩ := Returned.of_append_right (by decide) (by decide) h
      exact hurl ⟨rest, rfl⟩
    rw [urlTarget?_eq_none (not_exists.1 hurl), urlTarget?_eq_none hurl']
    exact .none

theorem rel_target? (h : Returned t t') : Option.Rel Agree (target? t) (target? t') := by
  have hurl := rel_urlTarget? h
  unfold target?
  generalize urlTarget? t = o at hurl ⊢
  generalize urlTarget? t' = o' at hurl ⊢
  cases hurl with
  | some hagree => exact .some hagree
  | none => exact rel_quotedTarget? h

theorem quotedTargets_eq (h : Returned t t') (hplain : ∀ x ∈ quotedTargets t, '\n' ∉ x) :
    quotedTargets t' = quotedTargets t := by
  induction t using quotedTargets.induct generalizing t' with
  | case1 =>
    cases h with
    | nil => rfl
    | cut => exact @quotedTargets_append ['\r'] (by simp) []
  | case2 c t x after hx ih =>
    have hrel := rel_target? h
    rw [hx] at hrel
    obtain ⟨⟨x', after'⟩, hx', hsame, hafter⟩ := rel_some_iff.1 hrel
    rw [quotedTargets_of_target hx] at hplain ⊢
    obtain ⟨hline, hmore⟩ := List.forall_mem_cons.1 hplain
    have hsame : x' = x := hsame hline
    rw [quotedTargets_of_target hx', ih hafter hmore, hsame]
  | case3 c t hnone ih =>
    have hrel := rel_target? h
    rw [quotedTargets_cons_of_none hnone] at hplain ⊢
    cases h with
    | keep c h =>
      rw [hnone] at hrel
      rw [quotedTargets_cons_of_none (rel_none_iff.1 hrel), ih h hplain]
    | @line _ t' h =>
      have hskip : quotedTargets (['\r', '\n'] ++ t') = quotedTargets t' :=
        quotedTargets_append (by simp) t'
      exact hskip.trans (ih h hplain)

theorem firstWord?_eq (h : Returned t t') : Text.firstWord? t' = Text.firstWord? t := by
  rw [Text.firstWord?, Text.firstWord?, h.skipBlanks.takeWhile_eq rfl rfl]

theorem bareTargets_eq {t t' : Text} (h : Returned t t') : bareTargets t' = bareTargets t := by
  -- the pieces before the first comma are related, and so is what follows it
  by_cases hcomma : ',' ∈ t
  · obtain ⟨u, rest, ht, hu⟩ := List.eq_append_cons_of_mem hcomma
    have hshort : rest.length < t.length := by
      rw [ht, List.length_append, List.length_cons]
      omega
    rw [ht] at h ⊢
    obtain ⟨u', rest', rfl, hreturned, -, hrest⟩ := Returned.of_append_cons (by decide) h
    have hu' : ',' ∉ u' := fun hmem => hu (hreturned.mem_of_mem hmem (by decide))
    rw [bareTargets_cons hu, bareTargets_cons hu', firstWord?_eq hreturned, bareTargets_eq hrest]
  · have hcomma' : ',' ∉ t' := fun hmem => hcomma (h.mem_of_mem hmem (by decide))
    rw [bareTargets_of_notMem hcomma, bareTargets_of_notMem hcomma', firstWord?_eq h]
termination_by t.length
decreasing_by exact hshort

theorem ofBody_eq (h : Returned t t') (hplain : ∀ x ∈ ofBody t, '\n' ∉ x) :
    ofBody t' = ofBody t := by
  have hquoted : ∀ x ∈ quotedTargets t, '\n' ∉ x := by
    cases hx : quotedTargets t with
    | nil => simp
    | cons x xs =>
      rw [ofBody, hx] at hplain
      exact hplain
  rw [ofBody, ofBody, quotedTargets_eq h hquoted, bareTargets_eq h]

end Target

/-! ### Sources -/

variable {t t' source : Text}

theorem targets_eq (h : Returned t t') (hplain : ∀ x ∈ targets t, '\n' ∉ x) :
    targets t' = targets t := by
  have hbodies := Statement.forall₂_bodies h
  unfold targets at hplain ⊢
  generalize Statement.bodies t = bodies at hbodies hplain ⊢
  generalize Statement.bodies t' = bodies' at hbodies ⊢
  induction hbodies with
  | nil => rfl
  | cons hbody _ ih =>
    rw [List.flatMap_cons] at hplain
    obtain ⟨hhere, hmore⟩ := List.forall_mem_append.1 hplain
    rw [List.flatMap_cons, List.flatMap_cons, Target.ofBody_eq hbody hhere, ih hmore]

/-- **Line endings do not matter.**  A carriage return before every newline changes no reference, if
    no reference contains a newline. -/
theorem importReferences_withReturns (source : Text)
    (h : ∀ r ∈ importReferences source, '\n' ∉ r) :
    importReferences (withReturns source) = importReferences source := by
  have hplain : ∀ x ∈ targets (stripComments source), '\n' ∉ x := by
    intro x hx hline
    refine h x (List.mem_eraseDups.2 (List.mem_filter.2 ⟨hx, ?_⟩)) hline
    cases x with
    | nil => cases hline
    | cons c x => rfl
  have hstrip : Returned (stripComments source) (stripComments (withReturns source)) :=
    @Comment.returned_strip (.plain .code) trivial [] source
  rw [importReferences, importReferences, targets_eq hstrip hplain]

/-- The line comment takes its carriage return with it, the list goes on behind a comma, and in the
    string the carriage return is escaped in place of the newline. -/
def escapedLine : Text :=
  "@import 'a', // it's\n  url(b);\n$c: \"\\\n/*\";\n@import d\n@import 'e'".toList

theorem importReferences_withReturns_escapedLine :
    (∀ r ∈ importReferences escapedLine, '\n' ∉ r) ∧
      importReferences (withReturns escapedLine) = importReferences escapedLine := by
  have hplain : ∀ r ∈ importReferences escapedLine, '\n' ∉ r := by
    decide +kernel
  exact ⟨hplain, importReferences_withReturns escapedLine hplain⟩

end SassImports.Stylesheet
