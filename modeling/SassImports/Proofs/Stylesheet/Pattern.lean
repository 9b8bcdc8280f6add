/-
  SassImports/Proofs/Stylesheet/Pattern.lean
  ==========================================
  Patterns with a preference.  A pattern may match the start of a text in several ways; `ways` lists
  them, the most preferred one first: of two alternatives the left one, of two repetitions the longer
  one.  What a later part of the pattern cannot use is given up for the next way, so the first way of
  a whole pattern is what a search with backtracking finds.

    * `first?` is the preferred way, and `first?_seq`, `first?_alt` take it apart;
    * `exists_ways_many_one`: a repeated character leaves the longest run first, and each other way
      leaves a text that starts with such a character;
    * `first?_many_one_seq`, `ways_many_one_seq` and `ways_group_many_one_seq`: hence no way but the
      longest run is of use to what cannot start with such a character;
    * `Leftmost`: matches one after the other, each at the first place behind the last one.
-/
import SassImports.Text

namespace SassImports

/-! ### Patterns -/

inductive Pattern where
  | empty
  /-- One character of a class. -/
  | one (accepts : Char → Bool)
  /-- One pattern and then the other. -/
  | seq (p q : Pattern)
  /-- The first pattern, or else the second. -/
  | alt (p q : Pattern)
  /-- A pattern as often as possible. -/
  | many (p : Pattern)
  /-- A pattern whose text is reported. -/
  | group (p : Pattern)

structure Pattern.Way where
  /-- What the groups took, in order. -/
  groups : List Text
  /-- What is left of the text. -/
  rest : Text
  deriving DecidableEq, Repr

namespace Pattern

def Way.append (m n : Way) : Way := ⟨m.groups ++ n.groups, n.rest⟩

/-- The ways to repeat a step, at most so many times.  A repetition that takes nothing is none. -/
def repeated (step : Text → List Way) : Nat → Text → List Way
  | 0, t => [⟨[], t⟩]
  | bound + 1, t =>
    (((step t).filter fun m => m.rest.length < t.length).flatMap fun m =>
      (repeated step bound m.rest).map m.append) ++ [⟨[], t⟩]

/-- The ways to match the start of a text, the most preferred one first. -/
def ways : Pattern → Text → List Way
  | .empty, t => [⟨[], t⟩]
  | .one _, [] => []
  | .one accepts, c :: t => if accepts c then [⟨[], t⟩] else []
  | .seq p q, t => (p.ways t).flatMap fun m => (q.ways m.rest).map m.append
  | .alt p q, t => p.ways t ++ q.ways t
  -- each repetition takes a character at least
  | .many p, t => repeated p.ways t.length t
  | .group p, t => (p.ways t).map fun m =>
    ⟨t.take (t.length - m.rest.length) :: m.groups, m.rest⟩

def first? (p : Pattern) (t : Text) : Option Way := (p.ways t).head?

def word : Text → Pattern
  | [] => .empty
  | c :: w => .seq (.one (· = c)) (word w)

variable {p q : Pattern} {accepts : Char → Bool} {m m' : Way} {t u : Text} {c : Char}

/-! ### The parts of a pattern -/

theorem first?_seq (p q : Pattern) (t : Text) :
    (seq p q).first? t = (p.ways t).findSome? fun m => (q.first? m.rest).map m.append := by
  rw [first?, ways, List.head?_flatMap]
  simp only [List.head?_map, first?]

theorem first?_alt (p q : Pattern) (t : Text) :
    (alt p q).first? t = (p.first? t).or (q.first? t) := by
  rw [first?, ways, List.head?_append]
  rfl

theorem first?_group (p : Pattern) (t : Text) :
    (group p).first? t = (p.first? t).map fun m =>
      ⟨t.take (t.length - m.rest.length) :: m.groups, m.rest⟩ := by
  rw [first?, ways, List.head?_map]
  rfl

/-- Where the second pattern goes on from the preferred way of the first one, nothing is given up. -/
theorem first?_seq_of_some (hp : p.first? t = some m) (hq : q.first? m.rest = some m') :
    (seq p q).first? t = some (m.append m') := by
  obtain ⟨others, hways⟩ := List.head?_eq_some_iff.1 hp
  rw [first?_seq, hways, List.findSome?_cons, hq]
  rfl

theorem first?_seq_of_ways (hp : p.ways t = [⟨[], u⟩]) (q : Pattern) :
    (seq p q).first? t = q.first? u := by
  rw [first?_seq, hp, List.findSome?_cons, List.findSome?_nil]
  cases q.first? u <;> rfl

theorem first?_seq_of_ways_eq_nil (hp : p.ways t = []) (q : Pattern) :
    (seq p q).first? t = none := by
  rw [first?_seq, hp]
  rfl

theorem first?_eq_none_iff : p.first? t = none ↔ p.ways t = [] := List.head?_eq_none_iff

theorem ways_one_cons (accepts : Char → Bool) (c : Char) (t : Text) :
    (one accepts).ways (c :: t) = if accepts c then [⟨[], t⟩] else [] := by
  rw [ways]

theorem ways_seq_of_ways (hp : p.ways t = [⟨[], u⟩]) (q : Pattern) :
    (seq p q).ways t = q.ways u := by
  rw [ways, hp, List.flatMap_cons, List.flatMap_nil, List.append_nil]
  exact List.map_id (q.ways u)

theorem ways_seq_of_ways_eq_nil (hp : p.ways t = []) (q : Pattern) : (seq p q).ways t = [] := by
  rw [ways, hp]
  rfl

theorem ways_word (w t : Text) :
    (word w).ways t = if w.isPrefixOf t then [⟨[], t.drop w.length⟩] else [] := by
  induction w generalizing t with
  | nil => rfl
  | cons c w ih =>
    cases t with
    | nil => rfl
    | cons d t =>
      by_cases hd : d = c
      · subst hd
        have hone : (one (· = d)).ways (d :: t) = [⟨[], t⟩] := by
          rw [ways_one_cons, if_pos (by simp)]
        rw [word, ways_seq_of_ways hone, ih]
        simp [List.isPrefixOf]
      · have hone : (one (· = c)).ways (d :: t) = [] := by
          rw [ways_one_cons, if_neg (by simpa using hd)]
        rw [word, ways_seq_of_ways_eq_nil hone, List.isPrefixOf]
        simp [Ne.symm hd]

/-! ### Repetitions -/

theorem head?_repeated_of_some {step : Text → List Way} (hstep : (step t).head? = some m)
    (hlt : m.rest.length < t.length) (bound : Nat) :
    (repeated step (bound + 1) t).head? = (repeated step bound m.rest).head?.map m.append := by
  obtain ⟨others, hways⟩ := List.head?_eq_some_iff.1 hstep
  have hne : ∃ n, (repeated step bound m.rest).head? = some n := by
    cases bound with
    | zero => exact ⟨_, rfl⟩
    | succ bound =>
      rw [repeated, List.head?_append]
      cases List.head? _ <;> exact ⟨_, rfl⟩
  obtain ⟨n, hn⟩ := hne
  rw [repeated, hways, List.filter_cons_of_pos (by simpa using hlt), List.flatMap_cons,
    List.append_assoc, List.head?_append, List.head?_map, hn]
  rfl

theorem head?_repeated_of_none {step : Text → List Way} (hstep : step t = []) (bound : Nat) :
    (repeated step bound t).head? = some ⟨[], t⟩ := by
  cases bound with
  | zero => rfl
  | succ bound =>
    rw [repeated, hstep]
    rfl

theorem repeated_one_cons (hc : accepts c = true) (bound : Nat) (t : Text) :
    repeated (one accepts).ways (bound + 1) (c :: t) =
      repeated (one accepts).ways bound t ++ [⟨[], c :: t⟩] := by
  have hone : (one accepts).ways (c :: t) = [⟨[], t⟩] := by
    rw [ways_one_cons, if_pos hc]
  rw [repeated, hone, List.filter_cons_of_pos (by simp), List.filter_nil, List.flatMap_cons,
    List.flatMap_nil, List.append_nil]
  congr 1
  exact List.map_id _

/-- A way that leaves a part of a run behind. -/
def Way.Short (accepts : Char → Bool) (t : Text) (m : Way) : Prop :=
  ∃ c u, m = ⟨[], c :: u⟩ ∧ accepts c = true ∧ (c :: u).dropWhile accepts = t.dropWhile accepts

/-- The longest run comes first. -/
theorem exists_ways_many_one (accepts : Char → Bool) (t : Text) :
    ∃ others, (many (one accepts)).ways t = ⟨[], t.dropWhile accepts⟩ :: others ∧
      ∀ m ∈ others, m.Short accepts t := by
  show ∃ others, repeated (one accepts).ways t.length t = _ ∧ _
  induction t with
  | nil => exact ⟨[], rfl, by simp⟩
  | cons c t ih =>
    cases hc : accepts c with
    | true =>
      obtain ⟨others, hways, hshort⟩ := ih
      have hdrop : (c :: t).dropWhile accepts = t.dropWhile accepts :=
        List.dropWhile_cons_of_pos hc
      refine ⟨others ++ [⟨[], c :: t⟩], ?_, ?_⟩
      · rw [List.length_cons, repeated_one_cons hc, hways, hdrop]
        rfl
      · intro m hm
        rcases List.mem_append.1 hm with hm | hm
        · obtain ⟨d, u, hd, hm, hrun⟩ := hshort m hm
          exact ⟨d, u, hd, hm, hrun.trans hdrop.symm⟩
        · obtain rfl := List.mem_singleton.1 hm
          exact ⟨c, t, rfl, hc, rfl⟩
    | false =>
      refine ⟨[], ?_, by simp⟩
      have hone : (one accepts).ways (c :: t) = [] := by
        rw [ways_one_cons, if_neg (by simp [hc])]
      rw [List.length_cons, repeated, hone, List.dropWhile_cons_of_neg (by simp [hc])]
      rfl

/-- Behind the longest run, if what comes next does not match behind a shorter one only. -/
theorem first?_many_one_seq
    (h : q.first? (t.dropWhile accepts) = none → ∀ c u, accepts c = true →
      (c :: u).dropWhile accepts = t.dropWhile accepts → q.first? (c :: u) = none) :
    (seq (many (one accepts)) q).first? t = q.first? (t.dropWhile accepts) := by
  obtain ⟨others, hways, hshort⟩ := exists_ways_many_one accepts t
  rw [first?_seq, hways, List.findSome?_cons]
  cases hq : q.first? (t.dropWhile accepts) with
  | some m => rfl
  | none =>
    show others.findSome? _ = none
    rw [List.findSome?_eq_none_iff]
    intro m hm
    obtain ⟨c, u, rfl, hc, hrun⟩ := hshort m hm
    rw [h hq c u hc hrun]
    rfl

/-- No shorter run is of use to what cannot start with a character of the run. -/
theorem ways_many_one_seq (h : ∀ c u, accepts c = true → q.ways (c :: u) = []) (t : Text) :
    (seq (many (one accepts)) q).ways t = q.ways (t.dropWhile accepts) := by
  obtain ⟨others, hways, hshort⟩ := exists_ways_many_one accepts t
  have hothers : (others.flatMap fun m => (q.ways m.rest).map m.append) = [] := by
    rw [List.flatMap_eq_nil_iff]
    intro m hm
    obtain ⟨c, u, rfl, hc, -⟩ := hshort m hm
    rw [h c u hc]
    rfl
  rw [ways, hways, List.flatMap_cons, hothers, List.append_nil]
  exact List.map_id _

theorem take_length_sub_dropWhile (accepts : Char → Bool) (t : Text) :
    t.take (t.length - (t.dropWhile accepts).length) = t.takeWhile accepts := by
  have hlength := congrArg List.length (List.takeWhile_append_dropWhile (p := accepts) (l := t))
  rw [List.length_append] at hlength
  have htake : t.length - (t.dropWhile accepts).length = (t.takeWhile accepts).length := by omega
  rw [htake]
  exact (List.prefix_iff_eq_take.1 (List.takeWhile_prefix accepts)).symm

theorem ways_group_many_one_seq (h : ∀ c u, accepts c = true → q.ways (c :: u) = []) (t : Text) :
    (seq (group (many (one accepts))) q).ways t =
      (q.ways (t.dropWhile accepts)).map fun m => ⟨t.takeWhile accepts :: m.groups, m.rest⟩ := by
  obtain ⟨others, hways, hshort⟩ := exists_ways_many_one accepts t
  have hothers : ((others.map fun m =>
      Way.mk (t.take (t.length - m.rest.length) :: m.groups) m.rest).flatMap fun m =>
        (q.ways m.rest).map m.append) = [] := by
    rw [List.flatMap_eq_nil_iff]
    intro m' hm'
    obtain ⟨m, hm, rfl⟩ := List.mem_map.1 hm'
    obtain ⟨c, u, rfl, hc, -⟩ := hshort m hm
    show (q.ways (c :: u)).map _ = []
    rw [h c u hc]
    rfl
  rw [ways, ways, hways, List.map_cons, List.flatMap_cons, hothers, List.append_nil,
    take_length_sub_dropWhile]
  rfl

end Pattern

/-! ### Searching -/

/-- Matches of a relation one after the other: each of them at the first place behind the last one
    where there is a match at all. -/
inductive Leftmost {α : Type} (matchesAt : Text → α → Text → Prop) : Text → List α → Prop where
  | done {t : Text} (h : ∀ s, s <:+ t → ∀ x rest, ¬matchesAt s x rest) :
      Leftmost matchesAt t []
  | next {skipped t rest : Text} {x : α} {xs : List α}
      (h : ∀ s, s <:+ skipped → s ≠ [] → ∀ x rest, ¬matchesAt (s ++ t) x rest)
      (hmatch : matchesAt t x rest) (hmore : Leftmost matchesAt rest xs) :
      Leftmost matchesAt (skipped ++ t) (x :: xs)

namespace Leftmost

variable {α : Type} {matchesAt : Text → α → Text → Prop} {t rest : Text} {c : Char} {x : α}
  {xs : List α}

theorem cons_of_none (h : ∀ x rest, ¬matchesAt (c :: t) x rest) (hmore : Leftmost matchesAt t xs) :
    Leftmost matchesAt (c :: t) xs := by
  cases hmore with
  | done hnone =>
    refine .done fun s hs => ?_
    rcases List.suffix_cons_iff.1 hs with rfl | hs
    · exact h
    · exact hnone s hs
  | @next skipped t rest x xs hnone hmatch hmore =>
    show Leftmost matchesAt ((c :: skipped) ++ t) (x :: xs)
    refine .next (fun s hs hne => ?_) hmatch hmore
    rcases List.suffix_cons_iff.1 hs with rfl | hs
    · exact h
    · exact hnone s hs hne

theorem cons_of_match (hmatch : matchesAt t x rest) (hmore : Leftmost matchesAt rest xs) :
    Leftmost matchesAt t (x :: xs) := by
  show Leftmost matchesAt ([] ++ t) (x :: xs)
  refine .next (fun s hs hne => ?_) hmatch hmore
  exact absurd (List.suffix_nil.1 hs) hne

/-- Only the matches in the text that is searched count. -/
theorem of_suffixes {matchesAt' : Text → α → Text → Prop}
    (hrest : ∀ {s x rest}, matchesAt s x rest → rest <:+ s)
    (hiff : ∀ s, s <:+ t → ∀ x rest, matchesAt' s x rest ↔ matchesAt s x rest)
    (h : Leftmost matchesAt t xs) : Leftmost matchesAt' t xs := by
  induction h with
  | done hnone =>
    refine .done fun s hs x rest => ?_
    rw [hiff s hs]
    exact hnone s hs x rest
  | @next skipped t rest x xs hnone hmatch hmore ih =>
    have ht : t <:+ skipped ++ t := List.suffix_append _ _
    refine .next (fun s hs hne y rest' => ?_) ((hiff t ht x rest).2 hmatch) ?_
    · rw [hiff (s ++ t) ((List.suffix_append_inj_of_length_eq rfl).2 ⟨hs, rfl⟩)]
      exact hnone s hs hne y rest'
    · apply ih
      intro s hs
      exact hiff s (hs.trans ((hrest hmatch).trans ht))

/-- If there is at most one match at each place, a search has one outcome. -/
theorem unique (hunique : ∀ {t x y rest rest'}, matchesAt t x rest → matchesAt t y rest' →
      x = y ∧ rest = rest') {ys : List α} (h : Leftmost matchesAt t xs)
    (h' : Leftmost matchesAt t ys) : xs = ys := by
  induction h generalizing ys with
  | done hnone =>
    cases h' with
    | done => rfl
    | @next skipped s rest y ys _ hmatch _ =>
      exact absurd hmatch (hnone s (List.suffix_append _ _) y rest)
  | @next skipped s rest x xs hnone hmatch hmore ih =>
    generalize ht : skipped ++ s = t at h'
    cases h' with
    | done hnone' =>
      exact absurd hmatch (hnone' s (ht ▸ List.suffix_append _ _) x rest)
    | @next skipped' s' rest' y ys hnone' hmatch' hmore' =>
      rcases List.append_eq_append_iff.1 ht with ⟨u, rfl, rfl⟩ | ⟨u, rfl, rfl⟩
      · cases u with
        | nil =>
          obtain ⟨rfl, rfl⟩ := hunique hmatch hmatch'
          rw [ih hmore']
        | cons d u =>
          exact absurd hmatch (hnone' _ (List.suffix_append _ _) (List.cons_ne_nil _ _) x rest)
      · cases u with
        | nil =>
          obtain ⟨rfl, rfl⟩ := hunique hmatch hmatch'
          rw [ih hmore']
        | cons d u =>
          exact absurd hmatch' (hnone _ (List.suffix_append _ _) (List.cons_ne_nil _ _) y rest')

end Leftmost
end SassImports
