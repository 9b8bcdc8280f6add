/-
  SassImports/Proofs/Stylesheet/Quotation.lean
  ============================================
  What a quoted target may say.  The comment scanner passes over a string as a whole, but the search
  for the end of a body does not know strings; so a quoted target is read as it is written unless a
  semicolon or a brace in it ends the body, and then the statement is cut in two there.

    * `stripComments_quotation`: nothing in a string is taken for a comment;
    * `importReferences_of_plain`: without a character that ends a body the target is read back;
    * `importReferences_cut`: what is read if there is one;
    * `importReferences_quotation`: hence exactly the targets without such a character survive.
-/
import SassImports.Proofs.Stylesheet.Concatenation
import SassImports.Proofs.Stylesheet.Recognition
import SassImports.Proofs.Stylesheet.Script

namespace SassImports.Stylesheet

open Comment (Leaves)
open Statement (isEnd keyword)

/-! ### One target -/

/-- Where a quoted target stands: by itself, or in a `url(...)`. -/
inductive Setting where
  | bare
  | url
  deriving DecidableEq, Repr

def Setting.opening : Setting → Text
  | .bare => []
  | .url => "url(".toList

def Setting.closing : Setting → Text
  | .bare => []
  | .url => [')']

/-- A statement that imports one target between quotes. -/
def quotation (setting : Setting) (quote : Char) (t : Text) : Text :=
  keyword ++ ' ' :: (setting.opening ++ (quote :: t ++ [quote]) ++ setting.closing ++ [';'])

variable {setting : Setting} {quote e : Char} {t u v : Text}

/-- The text of one statement with what stands between the quotes cut at a character. -/
theorem quotation_append_cons (setting : Setting) (quote : Char) (u : Text) (e : Char) (v : Text) :
    quotation setting quote (u ++ e :: v) =
      keyword ++ ' ' :: (setting.opening ++ quote :: u) ++
        e :: (v ++ quote :: (setting.closing ++ [';'])) := by
  simp only [quotation, List.cons_append, List.append_assoc, List.nil_append]

/-! ### Comments -/

theorem stripComments_quotation (hquote : quote = '"' ∨ quote = '\'')
    (hplain : ∀ c ∈ t, c ≠ '\\' ∧ c ≠ quote) :
    stripComments (quotation setting quote t) = quotation setting quote t := by
  have hspace : ∀ rest, Leaves [' '] [' '] rest := fun _ => Leaves.plain (by simp) (by simp)
  have hsemicolon : Leaves [';'] [';'] [] := Leaves.plain (by simp) (by simp)
  have htarget : ∀ rest, Leaves (setting.opening ++ (quote :: t ++ [quote]) ++ setting.closing)
      (setting.opening ++ (quote :: t ++ [quote]) ++ setting.closing) rest := by
    intro rest
    cases setting with
    | bare =>
      have hstring : Leaves (quote :: t ++ [quote]) (quote :: t ++ [quote]) rest :=
        Leaves.string hquote hplain
      simpa [Setting.opening, Setting.closing] using hstring
    | url => exact Leaves.urlString hquote hplain
  have h := Script.leaves_keyword.append
    ((hspace _).append ((htarget _).append hsemicolon)) []
  simpa [stripComments, quotation, Comment.strip] using h

/-! ### Targets without the end of a body -/

theorem isGap_of_head?_target (hquote : quote = '"' ∨ quote = '\'') :
    ∀ c ∈ (setting.opening ++ quote :: t).head?, Statement.isGap c = false := by
  intro c hc
  cases setting with
  | bare =>
    obtain rfl := Option.some.inj hc
    rcases hquote with rfl | rfl <;> rfl
  | url =>
    obtain rfl := Option.some.inj hc
    rfl

theorem isEnd_of_mem_opening (hquote : quote = '"' ∨ quote = '\'')
    (hinside : ∀ c ∈ t, isEnd c = false ∧ c ≠ '\n') :
    ∀ c ∈ setting.opening ++ quote :: t, isEnd c = false ∧ c ≠ '\n' := by
  refine List.forall_mem_append.2 ⟨?_, List.forall_mem_cons.2 ⟨?_, hinside⟩⟩
  · cases setting <;> simp [Setting.opening, isEnd]
  · rcases hquote with rfl | rfl <;> decide

/-- A body with nothing behind it that nothing in it ends. -/
theorem targets_open {body : Text} (hhead : ∀ c ∈ body.head?, Statement.isGap c = false)
    (hinside : ∀ c ∈ body, isEnd c = false ∧ c ≠ '\n') :
    targets (keyword ++ ' ' :: body) = Target.ofBody body := by
  have hafter : Statement.afterKeyword? (keyword ++ ' ' :: body) = some body :=
    @Statement.afterKeyword?_eq_some body [' '] (by simp) (by simp [Statement.isGap]) hhead
  have hbody : Statement.takeBody false body = (body, []) := by
    refine Statement.takeBody_eq_iff.2 ⟨(List.append_nil body).symm, ?_, by simp⟩
    rintro u c v rfl hends
    obtain ⟨hend, hline⟩ := hinside c (by simp)
    rcases hends with rfl | rfl | rfl | ⟨rfl, -⟩
    · cases hend
    · cases hend
    · cases hend
    · exact hline rfl
  rw [targets, Statement.bodies_of_some hafter, hbody, Statement.bodies_nil]
  simp

theorem ofBody_target (hquote : quote = '"' ∨ quote = '\'') (hclose : ∀ c ∈ t, c ≠ quote) :
    Target.ofBody (setting.opening ++ (quote :: t ++ [quote]) ++ setting.closing) = [t] := by
  have hquoted : Target.quotedTargets
      (setting.opening ++ (quote :: t ++ [quote]) ++ setting.closing) = [t] := by
    have hnone : Target.quotedTargets [] = [] := by
      rw [Target.quotedTargets]
    cases setting with
    | bare =>
      have htarget := Target.target?_string hquote hclose []
      exact (Target.quotedTargets_of_target htarget).trans (by rw [hnone])
    | url =>
      have htarget := Target.target?_urlString hquote hclose []
      exact (Target.quotedTargets_of_target htarget).trans (by rw [hnone])
  rw [Target.ofBody, hquoted]

/-- A target without a character that ends a body is read back. -/
theorem importReferences_of_plain (hquote : quote = '"' ∨ quote = '\'') (hne : t ≠ [])
    (hplain : ∀ c ∈ t, c ≠ quote ∧ c ≠ '\\' ∧ c ≠ '\n') (hinside : ∀ c ∈ t, isEnd c = false) :
    importReferences (quotation setting quote t) = [t] := by
  have hend : ∀ c ∈ setting.opening ++ quote :: (t ++ quote :: setting.closing),
      isEnd c = false ∧ c ≠ '\n' := by
    refine isEnd_of_mem_opening hquote (List.forall_mem_append.2 ⟨?_, ?_⟩)
    · exact fun c hc => ⟨hinside c hc, (hplain c hc).2.2⟩
    · rcases hquote with rfl | rfl <;> cases setting <;> simp [Setting.closing, isEnd]
  have hcut : quotation setting quote t =
      keyword ++ ' ' :: (setting.opening ++ quote :: (t ++ quote :: setting.closing)) ++
        ';' :: [] := by
    simp only [quotation, List.cons_append, List.append_assoc, List.nil_append]
  have hbody : setting.opening ++ quote :: (t ++ quote :: setting.closing) =
      setting.opening ++ (quote :: t ++ [quote]) ++ setting.closing := by
    simp only [List.cons_append, List.append_assoc, List.nil_append]
  have hrest : targets [] = [] := by
    rw [targets, Statement.bodies_nil]
    rfl
  have htargets : targets (quotation setting quote t) = [t] := by
    rw [hcut, targets_append_cons rfl, targets_open (isGap_of_head?_target hquote) hend, hbody,
      ofBody_target hquote fun c hc => (hplain c hc).1, hrest, List.append_nil]
  obtain ⟨c, t, rfl⟩ := List.exists_cons_of_ne_nil hne
  rw [importReferences, stripComments_quotation hquote fun c hc =>
    ⟨(hplain c hc).2.1, (hplain c hc).1⟩, htargets]
  rfl

/-! ### Targets with the end of a body -/

/-- If a character ends the body, the string is cut there: the quote before it stays open, and what
    comes behind it is searched for further statements. -/
theorem importReferences_cut (hquote : quote = '"' ∨ quote = '\'')
    (hplain : ∀ c ∈ u ++ e :: v, c ≠ quote ∧ c ≠ '\\' ∧ c ≠ '\n')
    (hinside : ∀ c ∈ u, isEnd c = false) (he : isEnd e = true) :
    importReferences (quotation setting quote (u ++ e :: v)) =
      ((Target.ofBody (setting.opening ++ quote :: u) ++
        targets (v ++ quote :: (setting.closing ++ [';']))).filter (!·.isEmpty)).eraseDups := by
  have hend : ∀ c ∈ setting.opening ++ quote :: u, isEnd c = false ∧ c ≠ '\n' :=
    isEnd_of_mem_opening hquote fun c hc =>
      ⟨hinside c hc, (hplain c (List.mem_append_left _ hc)).2.2⟩
  rw [importReferences, stripComments_quotation hquote fun c hc =>
    ⟨(hplain c hc).2.1, (hplain c hc).1⟩, quotation_append_cons, targets_append_cons he,
    targets_open (isGap_of_head?_target hquote) hend]

/-- **A quoted target is opaque but for what ends a body.**  A target between quotes, by itself or
    in a `url(...)`, is read back exactly if it contains no semicolon and no brace; otherwise the
    first of them cuts the statement in two. -/
theorem importReferences_quotation (setting : Setting) (hquote : quote = '"' ∨ quote = '\'')
    (hne : t ≠ []) (hplain : ∀ c ∈ t, c ≠ quote ∧ c ≠ '\\' ∧ c ≠ '\n') :
    (importReferences (quotation setting quote t) = [t] ↔ ∀ c ∈ t, isEnd c = false) ∧
      ∀ u e v, t = u ++ e :: v → (∀ c ∈ u, isEnd c = false) → isEnd e = true →
        importReferences (quotation setting quote t) =
          ((Target.ofBody (setting.opening ++ quote :: u) ++
            targets (v ++ quote :: (setting.closing ++ [';']))).filter (!·.isEmpty)).eraseDups := by
  refine ⟨⟨fun h c hc => ?_, importReferences_of_plain hquote hne hplain⟩, ?_⟩
  -- no reference of any source contains a character that ends a body
  · have hread : t ∈ importReferences (quotation setting quote t) := by
      rw [h]
      exact List.mem_singleton_self t
    exact isEnd_of_mem_importReferences hread hc
  · rintro u e v rfl hinside he
    exact importReferences_cut hquote hplain hinside he

/-- The address of a font, which has semicolons between the weights. -/
def fontAddress : Text := "//fonts/css?family=A:400;700".toList

theorem importReferences_quotation_fontAddress :
    ('"' = '"' ∨ '"' = '\'') ∧ fontAddress ≠ [] ∧
      (∀ c ∈ fontAddress, c ≠ '"' ∧ c ≠ '\\' ∧ c ≠ '\n') ∧
      (importReferences (quotation .url '"' fontAddress) = [fontAddress] ↔
        ∀ c ∈ fontAddress, isEnd c = false) ∧
      ∀ u e v, fontAddress = u ++ e :: v → (∀ c ∈ u, isEnd c = false) → isEnd e = true →
        importReferences (quotation .url '"' fontAddress) =
          ((Target.ofBody (Setting.url.opening ++ '"' :: u) ++
            targets (v ++ '"' :: (Setting.url.closing ++ [';']))).filter (!·.isEmpty)).eraseDups := by
  have hall : fontAddress.all (fun c => c ≠ '"' ∧ c ≠ '\\' ∧ c ≠ '\n') = true := by decide
  have hplain : ∀ c ∈ fontAddress, c ≠ '"' ∧ c ≠ '\\' ∧ c ≠ '\n' := by simpa using hall
  exact ⟨.inl rfl, by decide, hplain, importReferences_quotation .url (.inl rfl) (by decide) hplain⟩

/-- A semicolon in a string ends the statement, and the quote is read as part of a word. -/
theorem semicolon_ends_string :
    "a;b".toList ≠ [] ∧ (∀ c ∈ "a;b".toList, c ≠ '"' ∧ c ≠ '\\' ∧ c ≠ '\n') ∧
      importReferences "@import \"a;b\";".toList = ["\"a".toList] :=
  ⟨by decide, by simp, by decide +kernel⟩

end SassImports.Stylesheet
