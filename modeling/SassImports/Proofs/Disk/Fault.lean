/-
  SassImports/Proofs/Disk/Fault.lean
  ==================================
  Why it cannot be told whether something stands at a path below a directory.  The first piece of
  the path that cannot be taken decides (`exists_first_fault`), and a missing name is an answer and
  no fault.

    * `Faults`: the path holds a NUL or is too long, or its way meets something that is no directory,
      a name that is too long or a link that cannot be followed;
    * `exists?_join_eq_error_iff`: there is no other reason, and each of them is one.
-/
import SassImports.Proofs.Disk.Resolution

namespace SassImports.Disk

variable {d : Disk} {p q : Path} {links : Nat} {here l m : Location} {x : Text}
  {xs ys : List Text} {e : IoError} {onLink : Location → List Text → Except IoError Location}

/-! ### The first fault on a way -/

theorem followWith_append_of_error
    (hlink : ∀ here xs, onLink here xs = .error e → onLink here (xs ++ ys) = .error e)
    (h : d.followWith none onLink here xs = .error e) :
    d.followWith none onLink here (xs ++ ys) = .error e := by
  induction xs generalizing here with
  | nil =>
    rw [followWith] at h
    split at h
    · cases h
    · next hnone =>
      have hentry : d.entry? here = none := by simpa using hnone
      cases ys with
      | nil => simpa [followWith, hentry] using h
      | cons y ys => simpa [followWith, step, hentry] using h
  | cons x xs ih =>
    refine followWith_cons_rel (P := fun way way' => way = .error e → way' = .error e)
      (fun e he => he) (fun here => ih) ?_ x here h
    intro here target hon
    rw [← List.append_assoc]
    exact hlink here _ hon

/-- A way that has failed is not mended by what comes after it. -/
theorem follow_append_of_error (h : d.follow none links here xs = .error e) (ys : List Text) :
    d.follow none links here (xs ++ ys) = .error e := by
  induction links generalizing here xs with
  | zero =>
    apply followWith_append_of_error _ h
    intro here xs hon
    exact hon
  | succ links ih =>
    apply followWith_append_of_error _ h
    intro here xs hon
    exact ih hon

/-- A way that fails behind a beginning that does not has a first piece that cannot be taken. -/
theorem exists_first_fault (hbefore : d.follow none links here ys = .ok l)
    (h : d.follow none links here (ys ++ xs) = .error e) :
    ∃ inner x rest m, xs = inner ++ x :: rest ∧ d.follow none links here (ys ++ inner) = .ok m ∧
      d.follow none links here (ys ++ inner ++ [x]) = .error e := by
  induction xs generalizing ys l with
  | nil =>
    rw [List.append_nil, hbefore] at h
    cases h
  | cons x xs ih =>
    have hsplit : ys ++ x :: xs = ys ++ [x] ++ xs := by simp
    rcases hx : d.follow none links here (ys ++ [x]) with e' | k
    · have hwhole := follow_append_of_error hx xs
      rw [← hsplit, h] at hwhole
      obtain rfl := Except.error.inj hwhole
      exact ⟨[], x, xs, l, rfl, by rw [List.append_nil, hbefore], by rw [List.append_nil, hx]⟩
    · rw [hsplit] at h
      obtain ⟨inner, y, rest, m, rfl, hm, hy⟩ := ih hx h
      refine ⟨x :: inner, y, rest, m, rfl, ?_, ?_⟩
      · rw [← hm]
        simp
      · rw [← hy]
        simp

/-! ### Faults below a directory -/

/-- Where the way leads that goes along a directory and then along these pieces. -/
def along (d : Disk) (p : Path) (xs : List Text) : Except IoError Location :=
  d.follow none maxLinks (startOf p.text d.workingDirectory) (p.innerPieces ++ xs)

/-- The way along a directory and the pieces `inner` has come to `m`, and the piece `x` cannot be
    taken from there. -/
inductive Blocks (d : Disk) (p : Path) (inner : List Text) (m : Location) (x : Text) :
    IoError → Prop where
  | notADirectory (standing : d.entry? m ≠ some .directory) :
      d.Blocks p inner m x .notADirectory
  | longName {name : Text} (directory : d.entry? m = some .directory)
      (named : Component.ofSegment? x = some (.name name))
      (long : maxNameLength < Text.byteLength name) : d.Blocks p inner m x .invalidFilename
  | link {name target : Text} {e : IoError} (named : Component.ofSegment? x = some (.name name))
      (standing : d.entry? (name :: m) = some (.link target))
      (lost : d.along p (inner ++ [x]) = .error e) (fault : e ≠ .notFound) :
      d.Blocks p inner m x e

/-- It cannot be told whether something stands at the path `q` below the directory `p`. -/
inductive Faults (d : Disk) (p q : Path) : IoError → Prop where
  | nul (holds : '\x00' ∈ q.text) : d.Faults p q .nulInPath
  | longPath (clean : '\x00' ∉ q.text) (long : pathLimit ≤ Text.byteLength (p.join q).text) :
      d.Faults p q .invalidFilename
  | blocked {inner rest : List Text} {x : Text} {m : Location} {e : IoError}
      (clean : '\x00' ∉ q.text) (short : Text.byteLength (p.join q).text < pathLimit)
      (pieces : q.pieces = inner ++ x :: rest) (reached : d.along p inner = .ok m)
      (blocks : d.Blocks p inner m x e) : d.Faults p q e

theorem Blocks.along_eq (h : d.Blocks p xs m x e) (hm : d.along p xs = .ok m) :
    d.along p (xs ++ [x]) = .error e ∧ e ≠ .notFound := by
  have hstep : ∃ left, d.along p (xs ++ [x]) = d.follow none left m [x] := by
    obtain ⟨left, -, hgo⟩ := follow_append hm [x]
    refine ⟨left, ?_⟩
    rw [← hgo, along, List.append_assoc]
  obtain ⟨left, hgo⟩ := hstep
  rw [hgo]
  cases h with
  | notADirectory hstanding =>
    obtain ⟨entry, hentry⟩ := Option.isSome_iff_exists.1 (isSome_entry?_of_follow hm)
    refine ⟨follow_of_fault ?_ left [], by simp⟩
    cases entry with
    | directory => exact absurd hentry hstanding
    | file content => simp [step, hentry]
    | link target => simp [step, hentry]
  | longName hdirectory hnamed hlong =>
    refine ⟨follow_of_fault ?_ left [], by simp⟩
    simp [step, hdirectory, hnamed, hlong]
  | link hnamed hstanding hlost hfault => exact ⟨hgo ▸ hlost, hfault⟩

/-- Nothing else stops a way but a missing name. -/
theorem blocks_of_along_eq_error (hm : d.along p xs = .ok m)
    (h : d.along p (xs ++ [x]) = .error e) (he : e ≠ .notFound) : d.Blocks p xs m x e := by
  have hstep : ∃ onLink, d.followWith none onLink m [x] = .error e := by
    obtain ⟨left, -, hgo⟩ := follow_append hm [x]
    rw [List.append_assoc] at hgo
    obtain ⟨onLink, honLink⟩ := d.exists_followWith none left
    exact ⟨onLink, by rw [← honLink, ← hgo]; exact h⟩
  obtain ⟨onLink, hstep⟩ := hstep
  have hend : ∀ k, d.followWith none onLink k [] ≠ .error e := by
    intro k hk
    rw [followWith] at hk
    split at hk
    · cases hk
    · exact he (Except.error.inj hk).symm
  have hx := d.stepsTo_step m x
  rw [followWith] at hstep
  generalize d.step none m x = taken at hx hstep
  cases hx with
  | lost standing => exact absurd (Except.error.inj hstep).symm he
  | @notADirectory entry standing other =>
    obtain rfl := Except.error.inj hstep
    refine .notADirectory fun hdirectory => other ?_
    exact Option.some.inj (standing.symm.trans hdirectory)
  | up directory hx => exact absurd hstep (hend _)
  | idle directory hx => exact absurd hstep (hend _)
  | long directory hx long =>
    obtain rfl := Except.error.inj hstep
    exact .longName directory hx long
  | missing directory hx standing => exact absurd (Except.error.inj hstep).symm he
  | enter directory hx short standing solid => exact absurd hstep (hend _)
  | link directory hx short standing => exact .link hx standing h he

/-! ### What is asked below a directory -/

theorem exists?_eq_error_iff : d.exists? p = .error e ↔ d.locate p = .error e ∧ e ≠ .notFound := by
  unfold exists? find
  rcases hl : d.locate p with e' | l
  · cases e' <;> simp <;> rintro rfl <;> simp
  · -- a path that leads to a place leads to an entry
    have hresolve := resolve_of_locate hl (by simp)
    obtain ⟨entry, hentry⟩ := Option.isSome_iff_exists.1 (isSome_entry?_of_resolve hresolve)
    simp [hentry]

theorem resolve_join_eq (hp : p.text ≠ []) (hq : q.isAbsolute = false)
    (hnul : '\x00' ∉ (p.join q).text) : d.resolve none (p.join q) = d.along p q.pieces := by
  have htext := Path.join_of_relative hp hq
  have hne : (p.join q).text ≠ [] := by
    rw [htext]
    simp [hp]
  have hstart : startOf (p.join q).text d.workingDirectory = startOf p.text d.workingDirectory := by
    rw [htext, List.append_assoc, startOf_append hp]
  rw [resolve_eq_follow hnul hne, hstart, along, ← Path.pieces_join hp hq]

/-- A NUL in a path below a directory is not the directory's. -/
theorem nul_mem_join_iff (hl : d.resolve none p = .ok l) (hq : q.isAbsolute = false) :
    '\x00' ∈ (p.join q).text ↔ '\x00' ∈ q.text := by
  obtain ⟨hclean, hp, -⟩ := resolve_eq_ok_iff.1 hl
  rw [Path.join_of_relative hp hq]
  split <;> simp [hclean]

theorem Faults.locate_eq (hl : d.resolve none p = .ok l) (hq : q.isAbsolute = false)
    (h : d.Faults p q e) : d.locate (p.join q) = .error e ∧ e ≠ .notFound := by
  have hmem := nul_mem_join_iff hl hq
  cases h with
  | nul holds =>
    have hnul := hmem.2 holds
    simp [locate, resolve, hnul]
  | longPath clean long =>
    rw [locate, if_pos ⟨long, mt hmem.1 clean⟩]
    simp
  | @blocked inner rest x m e clean short pieces reached blocks =>
    obtain ⟨hx, hfault⟩ := blocks.along_eq reached
    refine ⟨?_, hfault⟩
    have hwhole := follow_append_of_error hx rest
    have hp := (resolve_eq_ok_iff.1 hl).2.1
    rw [locate, if_neg (by omega), resolve_join_eq hp hq (mt hmem.1 clean), pieces, along,
      ← hwhole]
    simp

theorem faults_of_locate_eq (hl : d.resolve none p = .ok l) (hq : q.isAbsolute = false)
    (h : d.locate (p.join q) = .error e) (he : e ≠ .notFound) : d.Faults p q e := by
  have hmem := nul_mem_join_iff hl hq
  by_cases hnul : '\x00' ∈ q.text
  · rw [locate, if_neg (by simp [hmem, hnul]), resolve, if_pos (hmem.2 hnul)] at h
    obtain rfl := Except.error.inj h
    exact .nul hnul
  · by_cases hlong : pathLimit ≤ Text.byteLength (p.join q).text
    · rw [locate, if_pos ⟨hlong, mt hmem.1 hnul⟩] at h
      obtain rfl := Except.error.inj h
      exact .longPath hnul hlong
    · obtain ⟨-, hp, hfollow⟩ := resolve_eq_ok_iff.1 hl
      rw [locate, if_neg (by simp [hlong]), resolve_join_eq hp hq (mt hmem.1 hnul)] at h
      -- the directory itself is no obstacle, so the first fault is in the path below it
      obtain ⟨inner, x, rest, m, hpieces, hm, hx⟩ :=
        exists_first_fault (follow_innerPieces hfollow) h
      rw [List.append_assoc] at hx
      exact .blocked hnul (Nat.lt_of_not_le hlong) hpieces hm (blocks_of_along_eq_error hm hx he)

/-- **Faults below a directory.**  It cannot be told whether something stands at a path below a
    directory exactly for these reasons. -/
theorem exists?_join_eq_error_iff (hdirectory : d.find p = .ok .directory)
    (hq : q.isAbsolute = false) : d.exists? (p.join q) = .error e ↔ d.Faults p q e := by
  obtain ⟨l, hl, -⟩ := exists_resolve_of_find hdirectory
  rw [exists?_eq_error_iff]
  constructor
  · rintro ⟨hlocate, hfault⟩
    exact faults_of_locate_eq hl hq hlocate hfault
  · intro hfaults
    exact hfaults.locate_eq hl hq

end SassImports.Disk
