/-
  SassImports/Proofs/Stylesheet/Recognition.lean
  ==============================================
  What the readers of statements and targets recognise, said without following them.

    * `Statement.StandsAt`: an import statement with its body at the start of a text;
      `bodies_eq_iff` says that the bodies are the leftmost ones;
    * `Target.Names`: a quoted or `url(...)` target at the start of a text; `quotedTargets_eq_iff`
      says the same of targets, and `ofBody_eq_iff` adds the bare words of a body without any;
    * `isEnd_of_mem_importReferences`: hence no reference contains a character that ends a body.
-/
import SassImports.Proofs.Path.Join
import SassImports.Proofs.Stylesheet.Body
import SassImports.Proofs.Stylesheet.Pattern
import SassImports.Stylesheet.Import

namespace SassImports.Stylesheet

open Text (isBlank skipBlanks)

/-! ### Statements -/

namespace Statement

variable {before body after t : Text} {c : Char} {afterComma : Bool}

/-- Whether a text ends in a comma and blanks, or in a comma. -/
def AfterComma (before : Text) : Prop :=
  ∃ u w : Text, before = u ++ ',' :: w ∧ ∀ c ∈ w, isBlank c = true

/-- What ends a body: a semicolon, a brace, or a newline that is not in a run of blanks behind a
    comma. -/
def EndsBody (before : Text) (c : Char) : Prop :=
  c = ';' ∨ c = '{' ∨ c = '}' ∨ (c = '\n' ∧ ¬AfterComma before)

/-- The body goes on to the first character that ends it, or to the end of the text. -/
def IsBody (body after : Text) : Prop :=
  (∀ u c v, body = u ++ c :: v → ¬EndsBody u c) ∧ ∀ c ∈ after.head?, EndsBody body c

/-- At the start of the text stands the keyword with a space or a tab behind it; the body begins
    behind all spaces and tabs. -/
def StandsAt (t body after : Text) : Prop :=
  ∃ gap : Text, gap ≠ [] ∧ (∀ c ∈ gap, isGap c = true) ∧
    (∀ c ∈ (body ++ after).head?, isGap c = false) ∧ t = keyword ++ (gap ++ (body ++ after)) ∧
      IsBody body after

theorem not_afterComma_nil : ¬AfterComma [] := by
  rintro ⟨u, w, h, -⟩
  simp at h

theorem afterComma_concat :
    AfterComma (before ++ [c]) ↔ c = ',' ∨ (AfterComma before ∧ isBlank c = true) := by
  constructor
  · rintro ⟨u, w, h, hw⟩
    rcases List.eq_nil_or_concat w with rfl | ⟨w, d, rfl⟩
    · exact .inl (List.append_inj_right' h rfl |> List.singleton_inj.1)
    · rw [List.concat_eq_append, ← List.cons_append, ← List.append_assoc] at h
      obtain ⟨rfl, hd⟩ := List.append_inj' h rfl
      obtain rfl := List.singleton_inj.1 hd
      rw [List.concat_eq_append] at hw
      exact .inr ⟨⟨u, w, rfl, fun e he => hw e (List.mem_append_left _ he)⟩, hw c (by simp)⟩
  · rintro (rfl | ⟨⟨u, w, rfl, hw⟩, hc⟩)
    · exact ⟨before, [], rfl, by simp⟩
    · refine ⟨u, w ++ [c], by simp, List.forall_mem_append.2 ⟨hw, ?_⟩⟩
      simpa using hc

theorem endsBody_iff (h : afterComma = true ↔ AfterComma before) :
    (isEnd c || (c = '\n' && !afterComma)) = true ↔ EndsBody before c := by
  simp [EndsBody, isEnd, ← h, or_assoc]

theorem afterComma_step (h : afterComma = true ↔ AfterComma before) :
    (c = ',' || (afterComma && isBlank c)) = true ↔ AfterComma (before ++ [c]) := by
  simp [afterComma_concat, h]

/-- The flag says of the text so far whether it ends in a comma and blanks. -/
theorem takeBody_isBody (h : afterComma = true ↔ AfterComma before) (t : Text) :
    (∀ u c v, (takeBody afterComma t).1 = u ++ c :: v → ¬EndsBody (before ++ u) c) ∧
      ∀ c ∈ (takeBody afterComma t).2.head?, EndsBody (before ++ (takeBody afterComma t).1) c := by
  induction t generalizing afterComma before with
  | nil => simp [takeBody]
  | cons c t ih =>
    rw [takeBody]
    split
    · next hend =>
      refine ⟨by simp, fun d hd => ?_⟩
      obtain rfl := Option.some.inj hd
      rw [List.append_nil]
      exact (endsBody_iff h).1 hend
    · next hend =>
      obtain ⟨hbody, hafter⟩ := ih (afterComma_step h)
      constructor
      · rintro u d v hu
        cases u with
        | nil =>
          obtain ⟨rfl, -⟩ := List.cons.inj hu
          rw [List.append_nil]
          exact fun hd => hend ((endsBody_iff h).2 hd)
        | cons e u =>
          obtain ⟨rfl, htake⟩ : c = e ∧ (takeBody _ t).1 = u ++ d :: v := List.cons.inj hu
          simpa using hbody u d v htake
      · simpa using hafter

theorem takeBody_of_isBody (h : afterComma = true ↔ AfterComma before)
    (hbody : ∀ u c v, body = u ++ c :: v → ¬EndsBody (before ++ u) c)
    (hafter : ∀ c ∈ after.head?, EndsBody (before ++ body) c) :
    takeBody afterComma (body ++ after) = (body, after) := by
  induction body generalizing afterComma before with
  | nil =>
    cases after with
    | nil => rfl
    | cons c after =>
      have hend := (endsBody_iff h).2 (by simpa using hafter c rfl)
      rw [List.nil_append, takeBody, if_pos hend]
  | cons c body ih =>
    have hend := mt (endsBody_iff h).1 (by simpa using hbody [] c body rfl)
    have hmore := ih (afterComma_step (c := c) h)
      (fun u d v hu => by simpa using hbody (c :: u) d v (by rw [hu]; rfl))
      (by simpa using hafter)
    rw [List.cons_append, takeBody, if_neg hend, hmore]

theorem takeBody_eq_iff :
    takeBody false t = (body, after) ↔ t = body ++ after ∧ IsBody body after := by
  have hnil : false = true ↔ AfterComma [] := by simp [not_afterComma_nil]
  constructor
  · intro h
    have happend := takeBody_append false t
    have hbody := takeBody_isBody hnil t
    rw [h] at happend hbody
    exact ⟨happend.symm, hbody⟩
  · rintro ⟨rfl, hbody, hafter⟩
    exact takeBody_of_isBody hnil hbody hafter

theorem standsAt_iff :
    StandsAt t body after ↔ ∃ u, afterKeyword? t = some u ∧ takeBody false u = (body, after) := by
  constructor
  · rintro ⟨gap, hne, hgap, hhead, ht, hbody⟩
    exact ⟨body ++ after, afterKeyword?_eq_some_iff.2 ⟨gap, hne, hgap, hhead, ht⟩,
      takeBody_eq_iff.2 ⟨rfl, hbody⟩⟩
  · rintro ⟨u, hu, htake⟩
    obtain ⟨rfl, hbody⟩ := takeBody_eq_iff.1 htake
    obtain ⟨gap, hne, hgap, hhead, ht⟩ := afterKeyword?_eq_some_iff.1 hu
    exact ⟨gap, hne, hgap, hhead, ht, hbody⟩

theorem leftmost_bodies (t : Text) : Leftmost StandsAt t (bodies t) := by
  induction t using bodies.induct with
  | case1 =>
    rw [bodies_nil]
    refine .done fun s hs body after hstands => ?_
    obtain ⟨u, hu, -⟩ := standsAt_iff.1 hstands
    rw [List.suffix_nil.1 hs] at hu
    cases hu
  | case2 c t u hu ih =>
    rw [bodies_of_some hu]
    exact .cons_of_match (standsAt_iff.2 ⟨u, hu, rfl⟩) ih
  | case3 c t hnone ih =>
    rw [bodies_cons_of_none hnone]
    refine .cons_of_none (fun body after hstands => ?_) ih
    obtain ⟨u, hu, -⟩ := standsAt_iff.1 hstands
    rw [hnone] at hu
    cases hu

/-- The bodies are those of the leftmost statements, each search beginning where the last statement
    ends. -/
theorem bodies_eq_iff {bs : List Text} : bodies t = bs ↔ Leftmost StandsAt t bs := by
  constructor
  · rintro rfl
    exact leftmost_bodies t
  · refine fun h => (leftmost_bodies t).unique ?_ h
    intro t b b' r r' hb hb'
    obtain ⟨u, hu, htake⟩ := standsAt_iff.1 hb
    obtain ⟨u', hu', htake'⟩ := standsAt_iff.1 hb'
    rw [hu] at hu'
    obtain rfl := Option.some.inj hu'
    rw [htake] at htake'
    exact Prod.mk.inj htake'

theorem isEnd_of_mem_takeBody (h : c ∈ (takeBody afterComma t).1) : isEnd c = false := by
  induction t generalizing afterComma with
  | nil => cases h
  | cons d t ih =>
    rw [takeBody] at h
    split at h
    · cases h
    · next hend =>
      rcases List.mem_cons.1 h with rfl | h
      · simp only [Bool.or_eq_true, not_or] at hend
        simpa using hend.1
      · exact ih h

theorem isEnd_of_mem_bodies (hbody : body ∈ bodies t) (hc : c ∈ body) : isEnd c = false := by
  induction t using bodies.induct with
  | case1 =>
    rw [bodies_nil] at hbody
    cases hbody
  | case2 d t u hu ih =>
    rw [bodies_of_some hu] at hbody
    rcases List.mem_cons.1 hbody with rfl | hbody
    · exact isEnd_of_mem_takeBody hc
    · exact ih hbody
  | case3 d t hnone ih =>
    rw [bodies_cons_of_none hnone] at hbody
    exact ih hbody

end Statement

/-! ### Targets -/

namespace Target

variable {t x after rest : Text} {q c : Char}

/-- A quoted string: it goes on to the next quote of the same kind. -/
def Quotes (t x after : Text) : Prop :=
  ∃ q, (q = '"' ∨ q = '\'') ∧ q ∉ x ∧ t = q :: (x ++ q :: after)

/-- What may stand in `url(...)`: a quoted string, or a run, maybe empty, without quotes, blanks and
    closing parentheses. -/
def IsUrlBody (inner x : Text) : Prop :=
  Quotes inner x [] ∨ (inner = x ∧ ∀ c ∈ x, isUrlChar c = true)

/-- `url(...)` with blanks on both sides of its body. -/
def NamesUrl (t x after : Text) : Prop :=
  ∃ lead inner trail : Text, (∀ c ∈ lead, isBlank c = true) ∧ (∀ c ∈ trail, isBlank c = true) ∧
    IsUrlBody inner x ∧ t = "url(".toList ++ (lead ++ (inner ++ (trail ++ ')' :: after)))

def Names (t x after : Text) : Prop := NamesUrl t x after ∨ Quotes t x after

theorem quotedTarget?_eq_some_iff : quotedTarget? t = some (x, after) ↔ Quotes t x after := by
  constructor
  · intro h
    unfold quotedTarget? at h
    split at h
    · cases h
    · next q rest =>
      split at h
      · next hq =>
        split at h
        · next d after' hdrop =>
          obtain ⟨rfl, rfl⟩ := Prod.mk.inj (Option.some.inj h)
          have happend := List.takeWhile_append_dropWhile (p := (· ≠ q)) (l := rest)
          rw [hdrop, eq_of_dropWhile_ne hdrop] at happend
          refine ⟨q, hq, fun hmem => ?_, by rw [happend]⟩
          simpa using of_mem_takeWhile hmem
        · cases h
      · cases h
  · rintro ⟨q, hq, hx, rfl⟩
    have h := quotedTarget?_append hq (fun c hc => ne_of_mem_of_not_mem hc hx) after
    simpa using h

theorem skipBlanks_append {lead : Text} (hlead : ∀ c ∈ lead, isBlank c = true)
    (hrest : ∀ c ∈ rest.head?, isBlank c = false) : skipBlanks (lead ++ rest) = rest := by
  rw [skipBlanks, List.dropWhile_append_of_pos hlead]
  cases rest with
  | nil => rfl
  | cons c rest => exact skipBlanks_cons (hrest c rfl) rest

theorem exists_append_skipBlanks (t : Text) : ∃ lead : Text, (∀ c ∈ lead, isBlank c = true) ∧
    t = lead ++ skipBlanks t ∧ ∀ c ∈ (skipBlanks t).head?, isBlank c = false := by
  exact ⟨t.takeWhile isBlank, fun c hc => of_mem_takeWhile hc,
    List.takeWhile_append_dropWhile.symm, fun c hc => of_head?_dropWhile hc⟩

theorem closeUrl?_eq_some_iff : closeUrl? t = some after ↔
    ∃ trail : Text, (∀ c ∈ trail, isBlank c = true) ∧ t = trail ++ ')' :: after := by
  constructor
  · intro h
    obtain ⟨trail, htrail, ht, -⟩ := exists_append_skipBlanks t
    unfold closeUrl? at h
    split at h
    · next after' hskip =>
      obtain rfl := Option.some.inj h
      exact ⟨trail, htrail, by rw [← hskip]; exact ht⟩
    · cases h
  · rintro ⟨trail, htrail, rfl⟩
    have hskip := @skipBlanks_append (')' :: after) trail htrail (by simpa using by decide)
    rw [closeUrl?, hskip]
    rfl

theorem takeWhile_isUrlChar_append (hx : ∀ c ∈ x, isUrlChar c = true)
    (hrest : ∀ c ∈ rest.head?, isUrlChar c = false) :
    (x ++ rest).takeWhile isUrlChar = x ∧ (x ++ rest).dropWhile isUrlChar = rest := by
  rw [List.takeWhile_append_of_pos hx, List.dropWhile_append_of_pos hx]
  cases rest with
  | nil => simp
  | cons c rest => simp [hrest c rfl]

theorem quotedTarget?_append_eq_none (hx : ∀ c ∈ x, isUrlChar c = true)
    (hrest : ∀ c ∈ rest.head?, c ≠ '"' ∧ c ≠ '\'') : quotedTarget? (x ++ rest) = none := by
  have hhead : ∀ c ∈ (x ++ rest).head?, c ≠ '"' ∧ c ≠ '\'' := by
    cases x with
    | nil => exact hrest
    | cons c x =>
      intro d hd
      obtain rfl := Option.some.inj hd
      obtain ⟨-, hdouble, hsingle, -⟩ := isUrlChar_iff.1 (hx c List.mem_cons_self)
      exact ⟨hdouble, hsingle⟩
  cases h : x ++ rest with
  | nil => rfl
  | cons c t => rw [quotedTarget?, if_neg (not_or.2 (hhead c (by rw [h]; rfl)))]

theorem blank_or_close_of_head?_trail {trail : Text} (htrail : ∀ c ∈ trail, isBlank c = true) :
    ∀ c ∈ (trail ++ ')' :: after).head?, isBlank c = true ∨ c = ')' := by
  intro c hc
  cases trail with
  | nil => exact .inr (Option.some.inj hc).symm
  | cons d trail =>
    obtain rfl := Option.some.inj hc
    exact .inl (htrail d List.mem_cons_self)

/-- The body of a `url(...)` is read to its end. -/
theorem urlBody_append {inner trail : Text} (hinner : IsUrlBody inner x)
    (htrail : ∀ c ∈ trail, isBlank c = true) :
    urlBody (inner ++ (trail ++ ')' :: after)) = (x, trail ++ ')' :: after) := by
  rcases hinner with ⟨q, hq, hx, rfl⟩ | ⟨rfl, hx⟩
  · have hquotes : Quotes (q :: (x ++ q :: (trail ++ ')' :: after))) x (trail ++ ')' :: after) :=
      ⟨q, hq, hx, rfl⟩
    rw [List.cons_append, List.append_assoc, List.cons_append, List.nil_append, urlBody,
      quotedTarget?_eq_some_iff.2 hquotes]
  · have hhead := @blank_or_close_of_head?_trail after trail htrail
    have hquoted : quotedTarget? (inner ++ (trail ++ ')' :: after)) = none := by
      refine quotedTarget?_append_eq_none hx fun c hc => ?_
      rcases hhead c hc with hblank | rfl
      · exact ⟨ne_of_isBlank hblank rfl, ne_of_isBlank hblank rfl⟩
      · decide
    have hrun : ∀ c ∈ (trail ++ ')' :: after).head?, isUrlChar c = false := by
      intro c hc
      rcases hhead c hc with hblank | rfl
      · simp [isUrlChar, hblank]
      · rfl
    obtain ⟨htake, hdrop⟩ := takeWhile_isUrlChar_append hx hrun
    rw [urlBody, hquoted, htake, hdrop]

theorem urlTarget?_append {lead inner trail : Text} (hlead : ∀ c ∈ lead, isBlank c = true)
    (hinner : IsUrlBody inner x) (htrail : ∀ c ∈ trail, isBlank c = true)
    (hhead : ∀ c ∈ (inner ++ (trail ++ ')' :: after)).head?, isBlank c = false) :
    urlTarget? ("url(".toList ++ (lead ++ (inner ++ (trail ++ ')' :: after)))) =
      some (x, after) := by
  have hclose : closeUrl? (trail ++ ')' :: after) = some after :=
    closeUrl?_eq_some_iff.2 ⟨trail, htrail, rfl⟩
  have hbody : urlBody (inner ++ (trail ++ ')' :: after)) = (x, trail ++ ')' :: after) :=
    urlBody_append hinner htrail
  rw [← skipBlanks_append hlead hhead] at hbody
  show ((closeUrl? (urlBody (skipBlanks (lead ++ _))).2).map fun after =>
    ((urlBody (skipBlanks (lead ++ _))).1, after)) = _
  rw [hbody, hclose]
  rfl

theorem isBlank_of_head?_urlBody {inner : Text} (hinner : IsUrlBody inner x) (hne : inner ≠ [])
    (rest : Text) : ∀ c ∈ (inner ++ rest).head?, isBlank c = false := by
  rcases hinner with ⟨q, hq, -, rfl⟩ | ⟨rfl, hx⟩
  · intro c hc
    obtain rfl := Option.some.inj hc
    rcases hq with rfl | rfl <;> decide
  · obtain ⟨d, inner, rfl⟩ := List.exists_cons_of_ne_nil hne
    intro c hc
    obtain rfl := Option.some.inj hc
    exact (isUrlChar_iff.1 (hx d List.mem_cons_self)).2.2.2

theorem urlTarget?_eq_some_iff : urlTarget? t = some (x, after) ↔ NamesUrl t x after := by
  constructor
  · intro h
    unfold urlTarget? at h
    split at h
    · next rest =>
      obtain ⟨after', hclose, hp⟩ := Option.map_eq_some_iff.1 h
      obtain ⟨rfl, rfl⟩ := Prod.mk.inj hp
      obtain ⟨lead, hlead, hrest, -⟩ := exists_append_skipBlanks rest
      obtain ⟨trail, htrail, hbody⟩ := closeUrl?_eq_some_iff.1 hclose
      have hinner : ∃ inner, IsUrlBody inner (urlBody (skipBlanks rest)).1 ∧
          skipBlanks rest = inner ++ (urlBody (skipBlanks rest)).2 := by
        unfold urlBody
        split
        · next p hp =>
          obtain ⟨q, hq, hx, ht⟩ := quotedTarget?_eq_some_iff.1 hp
          exact ⟨q :: (p.1 ++ [q]), .inl ⟨q, hq, hx, rfl⟩, by rw [ht]; simp⟩
        · exact ⟨_, .inr ⟨rfl, fun c hc => of_mem_takeWhile hc⟩,
            List.takeWhile_append_dropWhile.symm⟩
      obtain ⟨inner, hinner, hskip⟩ := hinner
      refine ⟨lead, inner, trail, hlead, htrail, hinner, ?_⟩
      rw [← hbody, ← hskip, ← hrest]
      rfl
    · cases h
  · rintro ⟨lead, inner, trail, hlead, htrail, hinner, rfl⟩
    cases inner with
    | nil =>
      -- all blanks stand before an empty body
      have hblank : ∀ c ∈ lead ++ trail, isBlank c = true :=
        List.forall_mem_append.2 ⟨hlead, htrail⟩
      have h := @urlTarget?_append x after (lead ++ trail) [] [] hblank hinner (by simp)
        (by simpa using by decide)
      simpa using h
    | cons c inner =>
      exact urlTarget?_append hlead hinner htrail
        (isBlank_of_head?_urlBody hinner (List.cons_ne_nil c inner) _)

theorem urlTarget?_eq_none_of_quotes (h : Quotes t x after) : urlTarget? t = none := by
  obtain ⟨q, hq, -, rfl⟩ := h
  rcases hq with rfl | rfl <;> rfl

theorem target?_eq_some_iff : target? t = some (x, after) ↔ Names t x after := by
  rw [target?, Option.or_eq_some_iff, urlTarget?_eq_some_iff, quotedTarget?_eq_some_iff]
  constructor
  · rintro (h | ⟨-, h⟩)
    · exact .inl h
    · exact .inr h
  · rintro (h | h)
    · exact .inl h
    · exact .inr ⟨urlTarget?_eq_none_of_quotes h, h⟩

theorem leftmost_quotedTargets (t : Text) : Leftmost Names t (quotedTargets t) := by
  induction t using quotedTargets.induct with
  | case1 =>
    rw [quotedTargets]
    refine .done fun s hs x after hnames => ?_
    have h := target?_eq_some_iff.2 hnames
    rw [List.suffix_nil.1 hs] at h
    cases h
  | case2 c t x after h ih =>
    rw [quotedTargets_of_target h]
    exact .cons_of_match (target?_eq_some_iff.1 h) ih
  | case3 c t hnone ih =>
    rw [quotedTargets_cons_of_none hnone]
    refine .cons_of_none (fun x after hnames => ?_) ih
    have h := target?_eq_some_iff.2 hnames
    rw [hnone] at h
    cases h

/-- The quoted and `url(...)` targets are the leftmost ones that do not overlap. -/
theorem quotedTargets_eq_iff {xs : List Text} : quotedTargets t = xs ↔ Leftmost Names t xs := by
  constructor
  · rintro rfl
    exact leftmost_quotedTargets t
  · refine fun h => (leftmost_quotedTargets t).unique ?_ h
    intro t x y r r' hx hy
    have h := (target?_eq_some_iff.2 hx).symm.trans (target?_eq_some_iff.2 hy)
    exact Prod.mk.inj (Option.some.inj h)

/-! Targets are parts of the body. -/

theorem Names.subset (h : Names t x after) : x ⊆ t ∧ after ⊆ t := by
  rcases h with ⟨lead, inner, trail, -, -, hinner, rfl⟩ | ⟨q, -, -, rfl⟩
  · have hx : x ⊆ inner := by
      rcases hinner with ⟨q, -, -, rfl⟩ | ⟨rfl, -⟩
      · exact fun c hc => by simp [hc]
      · exact fun c hc => hc
    exact ⟨fun c hc => by simp [hx hc], fun c hc => by simp [hc]⟩
  · exact ⟨fun c hc => by simp [hc], fun c hc => by simp [hc]⟩

theorem subset_of_mem_quotedTargets (hx : x ∈ quotedTargets t) : x ⊆ t := by
  induction t using quotedTargets.induct with
  | case1 =>
    rw [quotedTargets] at hx
    cases hx
  | case2 c t y after h ih =>
    obtain ⟨hy, hafter⟩ := (target?_eq_some_iff.1 h).subset
    rw [quotedTargets_of_target h] at hx
    rcases List.mem_cons.1 hx with rfl | hx
    · exact hy
    · exact fun c hc => hafter (ih hx hc)
  | case3 c t hnone ih =>
    rw [quotedTargets_cons_of_none hnone] at hx
    exact fun d hd => List.mem_cons_of_mem c (ih hx hd)

/-! Bare words -/

/-- The first word of a piece: a run without blanks, behind blanks only, that a blank or the end of
    the piece ends. -/
def IsFirstWord (piece word : Text) : Prop :=
  word ≠ [] ∧ (∀ c ∈ word, isBlank c = false) ∧
    ∃ lead trail : Text, (∀ c ∈ lead, isBlank c = true) ∧ (∀ c ∈ trail.head?, isBlank c = true) ∧
      piece = lead ++ (word ++ trail)

/-- The first words of some pieces; a piece of blanks has none. -/
inductive BareWords : List Text → List Text → Prop where
  | nil : BareWords [] []
  | word {piece word : Text} {pieces words : List Text} (h : IsFirstWord piece word)
      (more : BareWords pieces words) : BareWords (piece :: pieces) (word :: words)
  | blank {piece : Text} {pieces words : List Text} (h : ∀ c ∈ piece, isBlank c = true)
      (more : BareWords pieces words) : BareWords (piece :: pieces) words

/-- What a body names: its leftmost quoted and `url(...)` targets, or, if there is none, the first
    words between commas. -/
def Named (body : Text) (xs : List Text) : Prop :=
  (Leftmost Names body xs ∧ xs ≠ []) ∨
    (Leftmost Names body [] ∧ BareWords (body.splitOn ',') xs)

theorem firstWord?_eq_some_iff : Text.firstWord? t = some x ↔ IsFirstWord t x := by
  constructor
  · intro h
    obtain ⟨lead, hlead, ht, -⟩ := exists_append_skipBlanks t
    have hx : (skipBlanks t).takeWhile (!isBlank ·) = x := by
      unfold Text.firstWord? at h
      split at h
      · cases h
      · exact Option.some.inj h
    refine ⟨Text.firstWord?_ne_nil h, fun c hc => ?_, lead,
      (skipBlanks t).dropWhile (!isBlank ·), hlead, fun c hc => ?_, ?_⟩
    · rw [← hx] at hc
      simpa using of_mem_takeWhile hc
    · simpa using of_head?_dropWhile hc
    · rw [← hx, List.takeWhile_append_dropWhile]
      exact ht
  · rintro ⟨hne, hx, lead, trail, hlead, htrail, rfl⟩
    exact firstWord?_append hlead hne hx htrail

theorem firstWord?_eq_none_iff : Text.firstWord? t = none ↔ ∀ c ∈ t, isBlank c = true := by
  constructor
  · intro h
    obtain ⟨lead, hlead, ht, hhead⟩ := exists_append_skipBlanks t
    cases hskip : skipBlanks t with
    | nil =>
      rw [ht, hskip, List.append_nil]
      exact hlead
    | cons c u =>
      rw [hskip] at hhead
      rw [Text.firstWord?, hskip, List.takeWhile_cons_of_pos (by simp [hhead c rfl])] at h
      cases h
  · intro h
    have hskip := @skipBlanks_append [] t h (by simp)
    rw [List.append_nil] at hskip
    rw [Text.firstWord?, hskip]
    rfl

theorem bareWords_filterMap (pieces : List Text) :
    BareWords pieces (pieces.filterMap Text.firstWord?) := by
  induction pieces with
  | nil => exact .nil
  | cons piece pieces ih =>
    cases h : Text.firstWord? piece with
    | none =>
      rw [List.filterMap_cons_none h]
      exact .blank (firstWord?_eq_none_iff.1 h) ih
    | some word =>
      rw [List.filterMap_cons_some h]
      exact .word (firstWord?_eq_some_iff.1 h) ih

theorem bareTargets_eq_iff {xs : List Text} :
    bareTargets t = xs ↔ BareWords (t.splitOn ',') xs := by
  constructor
  · rintro rfl
    exact bareWords_filterMap _
  · intro h
    rw [bareTargets]
    generalize t.splitOn ',' = pieces at h ⊢
    induction h with
    | nil => rfl
    | word h _ ih => rw [List.filterMap_cons_some (firstWord?_eq_some_iff.2 h), ih]
    | blank h _ ih => rw [List.filterMap_cons_none (firstWord?_eq_none_iff.2 h), ih]

theorem ofBody_eq_iff {xs : List Text} : ofBody t = xs ↔ Named t xs := by
  rw [Named, ← quotedTargets_eq_iff, ← quotedTargets_eq_iff, ← bareTargets_eq_iff, ofBody]
  cases quotedTargets t with
  | nil =>
    constructor
    · exact fun h => .inr ⟨rfl, h⟩
    · rintro (⟨rfl, hne⟩ | ⟨-, h⟩)
      · exact absurd rfl hne
      · exact h
  | cons y ys =>
    constructor
    · rintro rfl
      exact .inl ⟨rfl, List.cons_ne_nil y ys⟩
    · rintro (⟨h, -⟩ | ⟨h, -⟩)
      · exact h
      · cases h

theorem subset_of_mem_bareTargets (hx : x ∈ bareTargets t) : x ⊆ t := by
  obtain ⟨piece, hpiece, hword⟩ := List.mem_filterMap.1 hx
  obtain ⟨-, -, lead, trail, -, -, rfl⟩ := firstWord?_eq_some_iff.1 hword
  intro c hc
  have hmem : c ∈ [','].intercalate (t.splitOn ',') :=
    Path.mem_intercalate_of_mem hpiece (List.mem_append_right _ (List.mem_append_left _ hc))
  rwa [List.intercalate_splitOn] at hmem

theorem subset_of_mem_ofBody (hx : x ∈ ofBody t) : x ⊆ t := by
  unfold ofBody at hx
  split at hx
  · exact subset_of_mem_bareTargets hx
  · exact subset_of_mem_quotedTargets hx

end Target

/-- No reference contains a character that ends a body. -/
theorem isEnd_of_mem_importReferences {source : Text} {r : Reference} {c : Char}
    (hr : r ∈ importReferences source) (hc : c ∈ r) : Statement.isEnd c = false := by
  obtain ⟨hr, -⟩ := List.mem_filter.1 (List.mem_eraseDups.1 hr)
  obtain ⟨body, hbody, hr⟩ := List.mem_flatMap.1 hr
  exact Statement.isEnd_of_mem_bodies hbody (Target.subset_of_mem_ofBody hr hc)

end SassImports.Stylesheet
