/-
  SassImports/Proofs/Path/Parent.lean
  ===================================
  The parent of a path.  A path without one has only pieces that stand for nothing, which lead to
  directories; so the path of a file has a parent.

    * `isIdle_of_parent?_eq_none` and `exists_parent?_of_read`;
    * `isAbsolute_of_parent?` and `isAbsolute_join`: absolute paths have absolute parents, and what
      is joined to one is absolute.
-/
import SassImports.Proofs.Disk.Resolution

namespace SassImports

namespace Path

variable {p q : Path}

theorem exists_text_of_isAbsolute (hp : p.isAbsolute = true) : ∃ t, p.text = '/' :: t := by
  obtain ⟨t, ht⟩ := List.head?_eq_some_iff.1 (of_decide_eq_true hp)
  exact ⟨t, ht⟩

theorem isAbsolute_join (hp : p.isAbsolute = true) (q : Path) : (p.join q).isAbsolute = true := by
  cases hq : q.isAbsolute with
  | true => rwa [join_of_absolute hq]
  | false =>
    obtain ⟨t, ht⟩ := exists_text_of_isAbsolute hp
    rw [isAbsolute, join_of_relative (by simp [ht]) hq, ht]
    rfl

theorem isAbsolute_of_parent? (hp : p.isAbsolute = true) (h : p.parent? = some q) :
    q.isAbsolute = true := by
  obtain ⟨t, ht⟩ := exists_text_of_isAbsolute hp
  have hlead : p.lead? = some .root := by
    simp [lead?, ht]
  have htext : p.leadText = ['/'] := by
    rw [leadText, hlead, ht]
    rfl
  unfold parent? at h
  rw [hlead, htext] at h
  split at h
  · obtain rfl := Option.some.inj h
    rfl
  · next hcurrent => cases hcurrent
  · cases h

theorem lead?_cases (p : Path) :
    p.lead? = none ∨ p.lead? = some .current ∨ (p.lead? = some .root ∧ ∃ t, p.text = '/' :: t) := by
  unfold lead?
  split
  · next t ht => exact .inr (.inr ⟨rfl, t, ht⟩)
  · exact .inr (.inl rfl)
  · exact .inr (.inl rfl)
  · exact .inl rfl

theorem isIdle_of_parent?_eq_none (h : p.parent? = none) : ∀ x ∈ p.pieces, isIdle x = true := by
  unfold parent? at h
  split at h
  · cases h
  · cases h
  · next hsegments hcurrent =>
    obtain ⟨idle, hidle, hsplit⟩ := trimEnd_spec p.segments
    rw [trimEnd, hsegments, List.reverse_nil, List.nil_append] at hsplit
    rw [← hsplit, segments] at hidle
    rcases p.lead?_cases with hlead | hlead | ⟨hlead, t, ht⟩
    · have hbody : p.body = p.text := by simp [body, hlead]
      rwa [hbody] at hidle
    · exact absurd hlead hcurrent
    · have hbody : p.body = t := by simp [body, hlead, ht]
      -- the slash at the start has an empty piece before it
      have hpieces : p.pieces = [] :: t.splitOn '/' := by
        rw [pieces, ht]
        exact List.splitOn_append_cons_self [] t
      rw [hbody] at hidle
      rw [hpieces]
      exact List.forall_mem_cons.2 ⟨rfl, hidle⟩

end Path

namespace Disk

variable {d : Disk} {p : Path} {links : Nat} {here l : Location} {x : Text} {xs : List Text}

/-- Pieces that stand for nothing lead to a directory, if to anything. -/
theorem entry?_of_idle (hidle : ∀ y ∈ x :: xs, Path.isIdle y = true)
    (h : d.follow none links here (x :: xs) = .ok l) : d.entry? l = some .directory := by
  have hdirectory := entry?_of_follow_cons h
  have hend : d.follow none links here [] = .ok here := by
    cases links <;> simp [follow, followWith, hdirectory]
  obtain rfl := Except.ok.inj (hend.symm.trans (follow_of_thins (.of_idle hidle) h))
  exact hdirectory

theorem exists_parent?_of_read {text : Text} (h : d.read p = .ok text) :
    ∃ directory, p.parent? = some directory := by
  cases hparent : p.parent? with
  | some directory => exact ⟨directory, rfl⟩
  | none =>
    obtain ⟨l, hl, hentry⟩ := exists_resolve_of_read h
    obtain ⟨-, -, hfollow⟩ := resolve_eq_ok_iff.1 hl
    obtain ⟨x, xs, hpieces⟩ := List.exists_cons_of_ne_nil (List.splitOn_ne_nil '/' p.text)
    have hidle := Path.isIdle_of_parent?_eq_none hparent
    rw [Path.pieces, hpieces] at hfollow hidle
    rw [entry?_of_idle hidle hfollow] at hentry
    cases hentry

end Disk
end SassImports
