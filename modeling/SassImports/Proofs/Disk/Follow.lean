/-
  SassImports/Proofs/Disk/Follow.lean
  ===================================
  Following the pieces of a path from a place on.

    * `StepsTo`: all that one piece can come to;
    * `follow_within`: a limit on absolute paths changes nothing but a way that comes to a place
      beyond it;
    * `follow_thins`: pieces that stand for nothing may be left out;
    * `follow_append`: a way goes on from the place that its first part leads to, with the links
      that the first part left over;
    * `follow_of_le`: a larger allowance of links changes nothing but a way that ran out of them.
-/
import SassImports.Disk
import SassImports.Outcome
import SassImports.Proofs.Path.Join

namespace SassImports.Disk

variable {d : Disk} {limit? : Option Nat} {links links' : Nat} {here l : Location}
  {x : Text} {xs ys : List Text} {onLink onLink' : Location → List Text → Except IoError Location}

/-! ### One piece -/

theorem step_of_outgrows (h : outgrows limit? here x = true) :
    d.step limit? here x = .fault .invalidFilename := by
  rw [step, if_pos h]

/-- Without a limit the same step is taken, unless it comes to a place beyond the limit. -/
theorem step_of_not_outgrows (h : outgrows limit? here x = false) :
    d.step limit? here x = d.step none here x := by
  rw [step, step, h, outgrows_none]

theorem step_of_idle (hx : Path.isIdle x = true) (h : d.entry? here = some .directory) :
    d.step limit? here x = .reach here := by
  have hx : Component.ofSegment? x = none := by simpa [Path.isIdle] using hx
  simp [step, outgrows, hx, h]

theorem entry?_of_step (h : ∀ e, d.step limit? here x ≠ .fault e) :
    d.entry? here = some .directory := by
  unfold step at h
  split at h
  · exact absurd rfl (h _)
  · split at h
    · assumption
    · exact absurd rfl (h _)
    · exact absurd rfl (h _)

/-- All that a step without a limit can come to. -/
inductive StepsTo (d : Disk) (here : Location) (x : Text) : Step → Prop where
  | lost (standing : d.entry? here = none) : d.StepsTo here x (.fault .notFound)
  | notADirectory {e : Entry} (standing : d.entry? here = some e) (other : e ≠ .directory) :
      d.StepsTo here x (.fault .notADirectory)
  | up (directory : d.entry? here = some .directory) (hx : Component.ofSegment? x = some .up) :
      d.StepsTo here x (.reach here.tail)
  | idle (directory : d.entry? here = some .directory) (hx : Path.isIdle x = true) :
      d.StepsTo here x (.reach here)
  | long {n : Text} (directory : d.entry? here = some .directory)
      (hx : Component.ofSegment? x = some (.name n)) (long : maxNameLength < Text.byteLength n) :
      d.StepsTo here x (.fault .invalidFilename)
  | missing {n : Text} (directory : d.entry? here = some .directory)
      (hx : Component.ofSegment? x = some (.name n)) (standing : d.entry? (n :: here) = none) :
      d.StepsTo here x (.fault .notFound)
  | enter {n : Text} {e : Entry} (directory : d.entry? here = some .directory)
      (hx : Component.ofSegment? x = some (.name n))
      (short : ¬maxNameLength < Text.byteLength n) (standing : d.entry? (n :: here) = some e)
      (solid : ∀ target, e ≠ .link target) : d.StepsTo here x (.reach (n :: here))
  | link {n target : Text} (directory : d.entry? here = some .directory)
      (hx : Component.ofSegment? x = some (.name n))
      (short : ¬maxNameLength < Text.byteLength n)
      (standing : d.entry? (n :: here) = some (.link target)) :
      d.StepsTo here x (.link (startOf target here) (target.splitOn '/'))

theorem ofSegment?_cases (x : Text) :
    Component.ofSegment? x = none ∨ Component.ofSegment? x = some .up ∨
      Component.ofSegment? x = some (.name x) := by
  unfold Component.ofSegment?
  split
  · exact .inl rfl
  · exact .inl rfl
  · exact .inr (.inl rfl)
  · exact .inr (.inr rfl)

theorem stepsTo_step (d : Disk) (here : Location) (x : Text) :
    d.StepsTo here x (d.step none here x) := by
  rw [step, outgrows_none, if_neg Bool.false_ne_true]
  split
  · next hdirectory =>
    rcases ofSegment?_cases x with hx | hx | hx
    · rw [hx]
      exact .idle hdirectory (by simp [Path.isIdle, hx])
    · rw [hx]
      exact .up hdirectory hx
    · rw [hx]
      dsimp only
      split
      · next hlong => exact .long hdirectory hx hlong
      · next hshort =>
        split
        · next hnone => exact .missing hdirectory hx hnone
        · next target hlink => exact .link hdirectory hx hshort hlink
        · next e hsolid hentry => exact .enter hdirectory hx hshort hentry hsolid
  · next e hother hentry =>
    refine .notADirectory hentry ?_
    rintro rfl
    exact hother rfl
  · next hnone => exact .lost hnone

/-- The first piece takes two ways through the same step.  What holds of the ways after it, and of
    two equal faults, holds of the ways with it. -/
theorem followWith_cons_rel {P : Except IoError Location → Except IoError Location → Prop}
    (hfault : ∀ e, P (.error e) (.error e))
    (hnext : ∀ here, P (d.followWith limit? onLink here xs) (d.followWith limit? onLink' here ys))
    (hlink : ∀ here target, P (onLink here (target ++ xs)) (onLink' here (target ++ ys)))
    (x : Text) (here : Location) :
    P (d.followWith limit? onLink here (x :: xs)) (d.followWith limit? onLink' here (x :: ys)) := by
  rw [followWith, followWith]
  cases d.step limit? here x with
  | fault e => exact hfault e
  | reach place => exact hnext place
  | link place target => exact hlink place target

theorem entry?_of_followWith_cons (h : d.followWith limit? onLink here (x :: xs) = .ok l) :
    d.entry? here = some .directory := by
  have hstep : ∀ e, d.step limit? here x ≠ .fault e := by
    intro e he
    rw [followWith, he] at h
    cases h
  exact entry?_of_step hstep

theorem exists_followWith (d : Disk) (limit? : Option Nat) (links : Nat) :
    ∃ onLink, d.follow limit? links = d.followWith limit? onLink := by
  cases links with
  | zero => exact ⟨_, rfl⟩
  | succ links => exact ⟨_, rfl⟩

theorem follow_of_fault {e : IoError} (h : d.step limit? here x = .fault e) (links : Nat)
    (xs : List Text) : d.follow limit? links here (x :: xs) = .error e := by
  obtain ⟨onLink, honLink⟩ := d.exists_followWith limit? links
  rw [honLink, followWith, h]

/-- From a place on there is a way along any pieces only if it is a directory. -/
theorem entry?_of_follow_cons (h : d.follow limit? links here (x :: xs) = .ok l) :
    d.entry? here = some .directory := by
  obtain ⟨onLink, honLink⟩ := d.exists_followWith limit? links
  rw [honLink] at h
  exact entry?_of_followWith_cons h

/-! ### Limits on absolute paths -/

/-- Some place on the disk has an absolute path that is not below the limit. -/
def Exceeds (d : Disk) (limit : Nat) : Prop := ∃ l ∈ d.locations, limit ≤ pathLength l

instance (limit : Nat) : Decidable (d.Exceeds limit) :=
  inferInstanceAs (Decidable (∃ l ∈ d.locations, limit ≤ pathLength l))

theorem followWith_of_limit
    (hlink : ∀ here xs, onLink here xs = .ok l → onLink' here xs = .ok l)
    (h : d.followWith limit? onLink here xs = .ok l) : d.followWith none onLink' here xs = .ok l := by
  induction xs generalizing here with
  | nil => rwa [followWith] at h ⊢
  | cons x xs ih =>
    rw [followWith] at h ⊢
    cases houtgrows : outgrows limit? here x with
    | true =>
      rw [step_of_outgrows houtgrows] at h
      cases h
    | false =>
      rw [step_of_not_outgrows houtgrows] at h
      cases hstep : d.step none here x with
      | fault e => rw [hstep] at h; cases h
      | reach place => rw [hstep] at h; exact ih h
      | link place target => rw [hstep] at h; exact hlink _ _ h

/-- A way within a limit is a way. -/
theorem follow_of_limit (h : d.follow limit? links here xs = .ok l) :
    d.follow none links here xs = .ok l := by
  induction links generalizing here xs with
  | zero => exact followWith_of_limit (fun _ _ hon => by cases hon) h
  | succ links ih => exact followWith_of_limit (fun _ _ hon => ih hon) h

/-- A piece that leads beyond the limit, and leads somewhere, leads to a place on the disk. -/
theorem exceeds_of_outgrows {limit : Nat} (h : outgrows (some limit) here x = true)
    (hstep : ∀ e, d.step none here x ≠ .fault e) : d.Exceeds limit := by
  unfold outgrows at h
  split at h
  · next name hname =>
    refine ⟨name :: here, ?_, by simpa using h⟩
    have hdirectory := entry?_of_step hstep
    rw [step, outgrows_none, if_neg Bool.false_ne_true, hdirectory] at hstep
    simp only [hname] at hstep
    split at hstep
    · exact absurd rfl (hstep _)
    · cases hentry : d.entry? (name :: here) with
      | none => rw [hentry] at hstep; exact absurd rfl (hstep _)
      | some e => exact mem_locations_of_entry? hentry
  · cases h

theorem followWith_within {limit : Nat}
    (hlink : ∀ here xs, onLink here xs = .ok l → onLink' here xs = .ok l ∨
      onLink' here xs = .error .invalidFilename ∧ d.Exceeds limit)
    (h : d.followWith none onLink here xs = .ok l) :
    d.followWith (some limit) onLink' here xs = .ok l ∨
      d.followWith (some limit) onLink' here xs = .error .invalidFilename ∧
        d.Exceeds limit := by
  induction xs generalizing here with
  | nil => exact .inl (by rwa [followWith] at h ⊢)
  | cons x xs ih =>
    rw [followWith] at h ⊢
    cases houtgrows : outgrows (some limit) here x with
    | true =>
      rw [step_of_outgrows houtgrows]
      refine .inr ⟨rfl, exceeds_of_outgrows houtgrows fun e he => ?_⟩
      rw [he] at h
      cases h
    | false =>
      rw [step_of_not_outgrows houtgrows]
      cases hstep : d.step none here x with
      | fault e => rw [hstep] at h; cases h
      | reach place => rw [hstep] at h; exact ih h
      | link place target => rw [hstep] at h; exact hlink _ _ h

/-- A way stays within a limit, unless it comes to a place that is beyond it. -/
theorem follow_within {limit : Nat} (h : d.follow none links here xs = .ok l) :
    d.follow (some limit) links here xs = .ok l ∨
      d.follow (some limit) links here xs = .error .invalidFilename ∧ d.Exceeds limit := by
  induction links generalizing here xs with
  | zero => exact followWith_within (fun _ _ hon => by cases hon) h
  | succ links ih => exact followWith_within (fun _ _ hon => ih hon) h

/-! ### Leaving out pieces -/

theorem followWith_of_idle (hx : Path.isIdle x = true) (h : d.entry? here = some .directory) :
    d.followWith limit? onLink here (x :: xs) = d.followWith limit? onLink here xs := by
  rw [followWith, step_of_idle hx h]

theorem followWith_thins
    (hlink : ∀ here xs ys, Path.Thins xs ys → onLink' here ys = .ok l →
      onLink here xs = onLink here ys)
    (hthin : Path.Thins xs ys) (h : d.followWith none onLink' here ys = .ok l) :
    d.followWith limit? onLink here xs = d.followWith limit? onLink here ys := by
  induction hthin generalizing here with
  | nil => rfl
  | @keep x xs ys hthin ih =>
    rw [followWith] at h
    rw [followWith, followWith]
    cases houtgrows : outgrows limit? here x with
    | true => rw [step_of_outgrows houtgrows]
    | false =>
      rw [step_of_not_outgrows houtgrows]
      cases hstep : d.step none here x with
      | fault e => rfl
      | reach place => rw [hstep] at h; exact ih h
      | link place target =>
        rw [hstep] at h
        exact hlink _ _ _ ((Path.Thins.refl target).append hthin) h
  | drop hy _ ih =>
    have hdirectory := entry?_of_followWith_cons h
    rw [followWith_of_idle hy hdirectory] at h ⊢
    exact ih h
  | change hx hy _ ih =>
    have hdirectory := entry?_of_followWith_cons h
    rw [followWith_of_idle hy hdirectory] at h ⊢
    rw [followWith_of_idle hx hdirectory]
    exact ih h

/-- On a way that leads somewhere, pieces that stand for nothing may be left out. -/
theorem follow_thins (hthin : Path.Thins xs ys) (h : d.follow none links here ys = .ok l) :
    d.follow limit? links here xs = d.follow limit? links here ys := by
  induction links generalizing here xs ys with
  | zero => exact followWith_thins (fun _ _ _ _ _ => rfl) hthin h
  | succ links ih => exact followWith_thins (fun _ _ _ hthin' => ih hthin') hthin h

theorem follow_of_thins (hthin : Path.Thins xs ys) (h : d.follow limit? links here ys = .ok l) :
    d.follow limit? links here xs = .ok l :=
  (follow_thins hthin (follow_of_limit h)).trans h

/-! ### Going on -/

theorem followWith_append (hlink : ∀ here xs, onLink here xs = .ok l →
      ∃ left ≤ links, onLink here (xs ++ ys) = d.follow limit? left l ys)
    (hnil : ∀ here, d.followWith limit? onLink here ys = d.follow limit? links here ys)
    (h : d.followWith limit? onLink here xs = .ok l) :
    ∃ left ≤ links, d.followWith limit? onLink here (xs ++ ys) = d.follow limit? left l ys := by
  induction xs generalizing here with
  | nil =>
    rw [followWith] at h
    split at h
    · obtain rfl := Except.ok.inj h
      exact ⟨links, Nat.le_refl _, hnil here⟩
    · cases h
  | cons x xs ih =>
    refine followWith_cons_rel
      (P := fun way way' => way = .ok l → ∃ left ≤ links, way' = d.follow limit? left l ys)
      (fun e he => by cases he) (fun here => ih) (fun here target hon => ?_) _ _ h
    rw [← List.append_assoc]
    exact hlink here _ hon

/-- A way that leads to a place goes on from there, with the links that are left. -/
theorem follow_append (h : d.follow limit? links here xs = .ok l) (ys : List Text) :
    ∃ left ≤ links, d.follow limit? links here (xs ++ ys) = d.follow limit? left l ys := by
  induction links generalizing here xs with
  | zero => exact followWith_append (fun _ _ hon => by cases hon) (fun _ => rfl) h
  | succ links ih =>
    refine followWith_append (fun here xs hon => ?_) (fun _ => rfl) h
    obtain ⟨left, hleft, hgo⟩ := ih hon
    exact ⟨left, Nat.le_succ_of_le hleft, hgo⟩

/-! ### More links -/

theorem followWith_congr
    (hlink : ∀ here xs, onLink here xs ≠ .error .filesystemLoop → onLink' here xs = onLink here xs)
    (h : d.followWith limit? onLink here xs ≠ .error .filesystemLoop) :
    d.followWith limit? onLink' here xs = d.followWith limit? onLink here xs := by
  induction xs generalizing here with
  | nil => rw [followWith, followWith]
  | cons x xs ih =>
    exact followWith_cons_rel
      (P := fun way way' => way ≠ .error .filesystemLoop → way' = way)
      (fun e _ => rfl) (fun here => ih) (fun here target => hlink here _) _ _ h

theorem follow_succ (h : d.follow limit? links here xs ≠ .error .filesystemLoop) :
    d.follow limit? (links + 1) here xs = d.follow limit? links here xs := by
  induction links generalizing here xs with
  | zero => exact followWith_congr (fun _ _ hon => absurd rfl hon) h
  | succ links ih => exact followWith_congr (fun _ _ hon => ih hon) h

theorem follow_of_le (hle : links ≤ links')
    (h : d.follow limit? links here xs ≠ .error .filesystemLoop) :
    d.follow limit? links' here xs = d.follow limit? links here xs := by
  induction hle with
  | refl => rfl
  | step _ ih => rw [follow_succ (by rw [ih]; exact h), ih]

/-- Two allowances that are both large enough give the same answer. -/
theorem follow_congr (h : d.follow limit? links here xs ≠ .error .filesystemLoop)
    (h' : d.follow limit? links' here xs ≠ .error .filesystemLoop) :
    d.follow limit? links here xs = d.follow limit? links' here xs := by
  rcases Nat.le_total links links' with hle | hle
  · exact (follow_of_le hle h).symm
  · exact follow_of_le hle h'

/-! ### Ends of ways -/

theorem isSome_entry?_of_followWith
    (hlink : ∀ here xs, onLink here xs = .ok l → (d.entry? l).isSome)
    (h : d.followWith limit? onLink here xs = .ok l) : (d.entry? l).isSome := by
  induction xs generalizing here with
  | nil =>
    rw [followWith] at h
    split at h
    · next hs => exact Except.ok.inj h ▸ hs
    · cases h
  | cons x xs ih =>
    rw [followWith] at h
    split at h
    · cases h
    · exact ih h
    · exact hlink _ _ h

theorem isSome_entry?_of_follow (h : d.follow limit? links here xs = .ok l) :
    (d.entry? l).isSome := by
  induction links generalizing here xs with
  | zero => exact isSome_entry?_of_followWith (fun _ _ hon => by cases hon) h
  | succ links ih => exact isSome_entry?_of_followWith (fun _ _ hon => ih hon) h

end SassImports.Disk
