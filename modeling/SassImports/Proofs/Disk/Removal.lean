/-
  SassImports/Proofs/Disk/Removal.lean
  ====================================
  What becomes of paths when the file at one of them is removed.  Nothing new can be reached; and what
  could be reached still can, unless it is the file whose path was removed, under another name.

    * `IsTree`: what stands somewhere stands in a directory;
    * `Taken`: the ways to take the first piece of a path, all that there are (`followWith_cons_iff`);
    * `Within`: a disk has nothing but what another one has, so no way leads elsewhere;
    * `follow_removeAt`: a way that does not come past the removed place stays, and one that does
      leads where that place does;
    * `exists_remove_of_isFile`: the removal of a path that leads to a file.
-/
import SassImports.Disk.Edit
import SassImports.Proofs.Disk.Fault
import SassImports.Proofs.Path.Components
import SassImports.Proofs.Resolve.FileEntry

namespace SassImports.Disk

variable {d d' : Disk} {p q : Path} {links : Nat} {here l m r parent : Location}
  {n name x target : Text} {xs : List Text} {e : Entry} {content : Content}
  {onLink onLink' : Location → List Text → Except IoError Location}

/-! ### File trees -/

/-- What stands somewhere stands in a directory. -/
def IsTree (d : Disk) : Prop := ∀ y ∈ d.entries, d.entry? y.1.tail = some .directory

instance (d : Disk) : Decidable d.IsTree :=
  inferInstanceAs (Decidable (∀ y ∈ d.entries, d.entry? y.1.tail = some .directory))

theorem IsTree.entry?_of_cons (h : d.IsTree) (hl : (d.entry? (n :: l)).isSome) :
    d.entry? l = some .directory := by
  obtain ⟨e, he⟩ := Option.isSome_iff_exists.1 hl
  obtain ⟨y, hy, -⟩ := Option.map_eq_some_iff.1 he
  have hlocation : y.1 = n :: l := by simpa using List.find?_some hy
  have hparent := h y (List.mem_of_find?_eq_some hy)
  rwa [hlocation] at hparent

/-- Above something that stands there are only directories. -/
theorem IsTree.entry?_of_suffix (h : d.IsTree) (hl : (d.entry? l).isSome) (hm : m <:+ l)
    (hne : m ≠ l) : d.entry? m = some .directory := by
  induction l with
  | nil => exact absurd (List.suffix_nil.1 hm) hne
  | cons n l ih =>
    have hparent := h.entry?_of_cons hl
    rcases List.suffix_cons_iff.1 hm with rfl | hm
    · exact absurd rfl hne
    · by_cases hml : m = l
      · rw [hml, hparent]
      · exact ih (by rw [hparent]; rfl) hm hml

/-! ### The first piece of a path -/

/-- The first piece is taken from a directory, and the other ones lead from there to a place. -/
inductive Taken (d : Disk) (onLink : Location → List Text → Except IoError Location)
    (here : Location) (x : Text) (xs : List Text) (l : Location) : Prop where
  | up (hx : Component.ofSegment? x = some .up) (rest : d.followWith none onLink here.tail xs = .ok l)
  | enter {n : Text} {e : Entry} (hx : Component.ofSegment? x = some (.name n))
      (short : ¬maxNameLength < Text.byteLength n) (standing : d.entry? (n :: here) = some e)
      (solid : ∀ target, e ≠ .link target) (rest : d.followWith none onLink (n :: here) xs = .ok l)
  | link {n target : Text} (hx : Component.ofSegment? x = some (.name n))
      (short : ¬maxNameLength < Text.byteLength n)
      (standing : d.entry? (n :: here) = some (.link target))
      (rest : onLink (startOf target here) (target.splitOn '/' ++ xs) = .ok l)
  | idle (hx : Path.isIdle x = true) (rest : d.followWith none onLink here xs = .ok l)

theorem followWith_cons_iff :
    d.followWith none onLink here (x :: xs) = .ok l ↔
      d.entry? here = some .directory ∧ d.Taken onLink here x xs l := by
  constructor
  · intro h
    have hx := d.stepsTo_step here x
    rw [followWith] at h
    generalize d.step none here x = taken at hx h
    cases hx with
    | up directory hx => exact ⟨directory, .up hx h⟩
    | idle directory hx => exact ⟨directory, .idle hx h⟩
    | enter directory hx short standing solid => exact ⟨directory, .enter hx short standing solid h⟩
    | link directory hx short standing => exact ⟨directory, .link hx short standing h⟩
    | lost | notADirectory | long | missing => cases h
  · rintro ⟨hdirectory, htaken⟩
    rw [followWith, step, outgrows_none, if_neg Bool.false_ne_true, hdirectory]
    cases htaken with
    | up hx rest =>
      simp only [hx]
      exact rest
    | @enter n e hx short standing solid rest =>
      simp only [hx, if_neg short, standing]
      cases e with
      | link target => exact absurd rfl (solid target)
      | directory => exact rest
      | file content => exact rest
    | link hx short standing rest =>
      simp only [hx, if_neg short, standing]
      exact rest
    | idle hx rest =>
      have hx : Component.ofSegment? x = none := by simpa [Path.isIdle] using hx
      simp only [hx]
      exact rest

theorem eq_of_follow_nil (h : d.follow none links here [] = .ok l) : here = l := by
  obtain ⟨onLink, honLink⟩ := d.exists_followWith none links
  rw [honLink, followWith] at h
  split at h
  · exact Except.ok.inj h
  · cases h

/-- A way that begins with some pieces comes to a place behind them. -/
theorem exists_of_follow_append (xs : List Text) {ys : List Text}
    (h : d.follow none links here (xs ++ ys) = .ok l) :
    ∃ m, d.follow none links here xs = .ok m ∧ ∃ left ≤ links, d.follow none left m ys = .ok l := by
  cases hxs : d.follow none links here xs with
  | error e =>
    rw [follow_append_of_error hxs] at h
    cases h
  | ok m =>
    obtain ⟨left, hleft, hgo⟩ := follow_append hxs ys
    exact ⟨m, rfl, left, hleft, hgo ▸ h⟩

/-! ### Disks with less on them -/

/-- What stands on the first disk stands on the second one, and they have one working directory. -/
structure Within (d' d : Disk) : Prop where
  workingDirectory : d'.workingDirectory = d.workingDirectory
  entries : ∀ l e, d'.entry? l = some e → d.entry? l = some e

theorem Within.followWith (h : d'.Within d)
    (hlink : ∀ here xs, onLink here xs = .ok l → onLink' here xs = .ok l)
    (hfollow : d'.followWith none onLink here xs = .ok l) : d.followWith none onLink' here xs = .ok l := by
  induction xs generalizing here with
  | nil =>
    rw [Disk.followWith] at hfollow ⊢
    split at hfollow
    · next hstanding =>
      obtain ⟨e, he⟩ := Option.isSome_iff_exists.1 hstanding
      rw [h.entries _ _ he]
      exact hfollow
    · cases hfollow
  | cons x xs ih =>
    obtain ⟨hdirectory, htaken⟩ := followWith_cons_iff.1 hfollow
    refine followWith_cons_iff.2 ⟨h.entries _ _ hdirectory, ?_⟩
    cases htaken with
    | up hx rest => exact .up hx (ih rest)
    | enter hx short standing solid rest =>
      exact .enter hx short (h.entries _ _ standing) solid (ih rest)
    | link hx short standing rest =>
      exact .link hx short (h.entries _ _ standing) (hlink _ _ rest)
    | idle hx rest => exact .idle hx (ih rest)

theorem Within.follow (h : d'.Within d) (hfollow : d'.follow none links here xs = .ok l) :
    d.follow none links here xs = .ok l := by
  induction links generalizing here xs with
  | zero => exact h.followWith (fun _ _ hon => hon) hfollow
  | succ links ih => exact h.followWith (fun _ _ hon => ih hon) hfollow

theorem Within.resolve (h : d'.Within d) (hl : d'.resolve none p = .ok l) :
    d.resolve none p = .ok l := by
  obtain ⟨hnul, hne, hfollow⟩ := resolve_eq_ok_iff.1 hl
  rw [h.workingDirectory] at hfollow
  exact resolve_eq_ok_iff.2 ⟨hnul, hne, h.follow hfollow⟩

theorem find_of_resolve (hl : d.resolve none p = .ok l) (he : d.entry? l = some e)
    (hshort : ¬(pathLimit ≤ Text.byteLength p.text ∧ '\x00' ∉ p.text)) : d.find p = .ok e := by
  rw [find, locate, if_neg hshort, hl]
  simp only [he]

theorem short_of_find (h : d.find p = .ok e) :
    ¬(pathLimit ≤ Text.byteLength p.text ∧ '\x00' ∉ p.text) := by
  intro hlong
  rw [find, locate, if_pos hlong] at h
  cases h

/-- What is found on the disk with less is found on the other one. -/
theorem Within.find (h : d'.Within d) (hfind : d'.find p = .ok e) : d.find p = .ok e := by
  obtain ⟨l, hl, he⟩ := exists_resolve_of_find hfind
  exact find_of_resolve (h.resolve hl) (h.entries _ _ he) (short_of_find hfind)

/-- What is found on the disk with more is found on the other one if the path leads anywhere. -/
theorem Within.find_of_resolve (h : d'.Within d) (hfind : d.find p = .ok e)
    (hl : d'.resolve none p = .ok l) : d'.find p = .ok e := by
  obtain ⟨e', he'⟩ := Option.isSome_iff_exists.1 (isSome_entry?_of_resolve hl)
  have hfind' := Disk.find_of_resolve hl he' (short_of_find hfind)
  rw [hfind', ← h.find hfind', hfind]

theorem isFile_iff : d.isFile p = true ↔ ∃ content, d.find p = .ok (.file content) := by
  unfold isFile
  split
  · next content hfind => simp [hfind]
  · next hother => simpa using hother

/-! ### Removing a place -/

theorem entry?_removeAt (hr : r ≠ []) (l : Location) :
    Disk.entry? (d.removeAt r) l = if r <:+ l then none else d.entry? l := by
  cases l with
  | nil =>
    rw [if_neg (by simpa using hr)]
    rfl
  | cons n l =>
    have hfind : (d.entries.filter fun y => !r.isSuffixOf y.1).find? (·.1 = n :: l) =
        if r <:+ n :: l then none else d.entries.find? (·.1 = n :: l) := by
      rw [List.find?_filter]
      split
      · next hsuffix =>
        refine List.find?_eq_none.2 fun y _ hy => ?_
        simp only [Bool.not_eq_true', decide_eq_true_eq] at hy
        rw [hy.2, ← Bool.not_eq_true, List.isSuffixOf_iff_suffix] at hy
        exact hy.1 hsuffix
      · next hsuffix =>
        congr 1
        funext y
        by_cases hy : y.1 = n :: l
        · have hkept : r.isSuffixOf (n :: l) = false := by
            rwa [← Bool.not_eq_true, List.isSuffixOf_iff_suffix]
          simp [hy, hkept]
        · simp [hy]
    show (((d.entries.filter fun y => !r.isSuffixOf y.1).find? (·.1 = n :: l)).map (·.2)) = _
    rw [hfind]
    split <;> rfl

theorem within_removeAt (hr : r ≠ []) (d : Disk) : (d.removeAt r).Within d := by
  constructor
  case workingDirectory => rfl
  case entries =>
    intro l e he
    rw [entry?_removeAt hr] at he
    split at he
    · cases he
    · exact he

theorem IsTree.removeAt (h : d.IsTree) (hr : r ≠ []) : (d.removeAt r).IsTree := by
  intro y hy
  obtain ⟨hy, hkept⟩ := List.mem_filter.1 hy
  have hout : ¬r <:+ y.1.tail := by
    intro hbelow
    have hbelow := hbelow.trans (List.tail_suffix y.1)
    rw [← List.isSuffixOf_iff_suffix] at hbelow
    simp [hbelow] at hkept
  rw [entry?_removeAt hr, if_neg hout]
  exact h y hy

/-- A way that does not start below the removed place stays, if it does not come past it; and if it
    does, it leads where every way leads that goes on from there. -/
theorem followWith_removeAt
    (hpast : ∀ rest, d.followWith none onLink parent (name :: rest) = .ok l → l = m)
    (hlink : ∀ here xs, ¬name :: parent <:+ here → onLink here xs = .ok l →
      onLink' here xs = .ok l ∨ l = m)
    (hhere : ¬name :: parent <:+ here) (h : d.followWith none onLink here xs = .ok l) :
    (d.removeAt (name :: parent)).followWith none onLink' here xs = .ok l ∨ l = m := by
  have hr : name :: parent ≠ [] := List.cons_ne_nil _ _
  have hentry : ∀ {l}, ¬name :: parent <:+ l →
      Disk.entry? (d.removeAt (name :: parent)) l = d.entry? l := by
    intro l hl
    rw [entry?_removeAt hr, if_neg hl]
  induction xs generalizing here with
  | nil =>
    left
    rw [Disk.followWith] at h ⊢
    rwa [hentry hhere]
  | cons x xs ih =>
    obtain ⟨hdirectory, htaken⟩ := followWith_cons_iff.1 h
    have hdirectory' : Disk.entry? (d.removeAt (name :: parent)) here = some .directory := by
      rw [hentry hhere, hdirectory]
    -- a name that is entered is the removed one, or leads to a place not below it
    have hname : ∀ {n : Text}, Component.ofSegment? x = some (.name n) →
        l = m ∨ ¬name :: parent <:+ n :: here := by
      intro n hx
      by_cases hbelow : name :: parent <:+ n :: here
      · rcases List.suffix_cons_iff.1 hbelow with heq | hbelow
        · obtain ⟨rfl, rfl⟩ := List.cons.inj heq
          obtain rfl := Path.eq_of_ofSegment? hx
          exact .inl (hpast xs h)
        · exact absurd hbelow hhere
      · exact .inr hbelow
    have hon : ∀ {way : Prop}, (way → (d.removeAt (name :: parent)).Taken onLink' here x xs l) →
        way ∨ l = m →
        (d.removeAt (name :: parent)).followWith none onLink' here (x :: xs) = .ok l ∨ l = m :=
      fun htake => Or.imp_left fun hway => followWith_cons_iff.2 ⟨hdirectory', htake hway⟩
    cases htaken with
    | up hx rest =>
      have hup : ¬name :: parent <:+ here.tail := fun hbelow =>
        hhere (hbelow.trans (List.tail_suffix here))
      exact hon (.up hx) (ih hup rest)
    | @enter n e hx short standing solid rest =>
      rcases hname hx with hlm | hbelow
      · exact .inr hlm
      · exact hon (.enter hx short ((hentry hbelow).trans standing) solid) (ih hbelow rest)
    | @link n target hx short standing rest =>
      rcases hname hx with hlm | hbelow
      · exact .inr hlm
      · have hstart : ¬name :: parent <:+ startOf target here := by
          unfold startOf
          split
          · simp
          · exact hhere
        exact hon (.link hx short ((hentry hbelow).trans standing)) (hlink _ _ hstart rest)
    | idle hx rest => exact hon (.idle hx) (ih hhere rest)

theorem follow_removeAt
    (hpast : ∀ links rest, d.follow none links parent (name :: rest) = .ok l → l = m)
    (hhere : ¬name :: parent <:+ here) (h : d.follow none links here xs = .ok l) :
    (d.removeAt (name :: parent)).follow none links here xs = .ok l ∨ l = m := by
  induction links generalizing here xs with
  | zero => exact followWith_removeAt (hpast 0) (fun _ _ _ hon => .inl hon) hhere h
  | succ links ih =>
    exact followWith_removeAt (hpast (links + 1)) (fun _ _ hhere hon => ih hhere hon) hhere h

/-! ### Removing a file -/

/-- Whatever the way along a name that leads to a file goes on with, it does not go on. -/
theorem eq_of_follow_past {left : Nat} {rest : List Text}
    (hlast : d.follow none left parent [name] = .ok l) (hfile : d.entry? l = some (.file content))
    (h : d.follow none links parent (name :: rest) = .ok m) : m = l := by
  obtain ⟨k, hk, left', -, hrest⟩ := exists_of_follow_append [name] h
  have hne : ∀ {k : Location}, (Except.ok k : Except IoError Location) ≠ .error .filesystemLoop :=
    fun heq => by cases heq
  have hsame := follow_congr (hk ▸ hne) (hlast ▸ hne)
  rw [hk, hlast] at hsame
  obtain rfl := Except.ok.inj hsame
  cases rest with
  | nil => exact (eq_of_follow_nil hrest).symm
  | cons y rest =>
    rw [follow_of_file hfile (List.cons_ne_nil y rest)] at hrest
    cases hrest

/-- Something stands at a name that leads to a file, and it is no directory. -/
theorem exists_entry?_of_last (hname : Path.IsName name)
    (hlast : d.follow none links parent [name] = .ok l) (hfile : d.entry? l = some (.file content)) :
    ∃ e, d.entry? (name :: parent) = some e ∧ e ≠ .directory := by
  obtain ⟨onLink, honLink⟩ := d.exists_followWith none links
  have hwith := hlast
  rw [honLink] at hwith
  obtain ⟨-, htaken⟩ := followWith_cons_iff.1 hwith
  cases htaken with
  | up hx rest =>
    rw [hname.1] at hx
    cases hx
  | @enter n e hx short standing solid rest =>
    obtain rfl := Path.eq_of_ofSegment? hx
    refine ⟨e, standing, ?_⟩
    rintro rfl
    rw [← honLink] at rest
    rw [eq_of_follow_nil rest, hfile] at standing
    cases standing
  | @link n target hx short standing rest =>
    obtain rfl := Path.eq_of_ofSegment? hx
    exact ⟨.link target, standing, fun heq => by cases heq⟩
  | idle hx rest =>
    rw [Path.isIdle, hname.1] at hx
    cases hx

/-- Along a way that leads to a directory there is nothing to be made. -/
theorem makeDirectories_of_follow (hlinks : links ≤ maxLinks)
    (hdirectory : d.entry? l = some .directory) (h : d.follow none links here xs = .ok l) :
    d.makeDirectories here xs = some (d, l) := by
  induction xs generalizing links here with
  | nil => rw [makeDirectories, eq_of_follow_nil h]
  | cons x xs ih =>
    obtain ⟨onLink, honLink⟩ := d.exists_followWith none links
    have hwith := h
    rw [honLink] at hwith
    obtain ⟨-, htaken⟩ := followWith_cons_iff.1 hwith
    cases htaken with
    | up hx rest =>
      rw [← honLink] at rest
      simp only [makeDirectories, hx]
      exact ih hlinks rest
    | @enter n e hx short standing solid rest =>
      rw [← honLink] at rest
      have hentry : e = .directory := by
        cases xs with
        | nil =>
          rw [eq_of_follow_nil rest, hdirectory] at standing
          exact (Option.some.inj standing).symm
        | cons y xs =>
          rw [entry?_of_follow_cons rest] at standing
          exact (Option.some.inj standing).symm
      simp only [makeDirectories, hx, standing, hentry]
      exact ih hlinks rest
    | @link n target hx short standing rest =>
      -- the link is followed alone, with all links that are allowed
      obtain ⟨m, hm, left, hleft, hmore⟩ := exists_of_follow_append [x] h
      have halone : d.follow none maxLinks here [n] = .ok m := by
        rw [Path.eq_of_ofSegment? hx] at hm
        rw [follow_of_le hlinks (by rw [hm]; simp), hm]
      have hentry : d.entry? m = some .directory := by
        cases xs with
        | nil => rw [eq_of_follow_nil hmore, hdirectory]
        | cons y xs => exact entry?_of_follow_cons hmore
      simp only [makeDirectories, hx, standing, halone, if_pos hentry]
      exact ih (Nat.le_trans hleft hlinks) hmore
    | idle hx rest =>
      have hx : Component.ofSegment? x = none := by simpa [Path.isIdle] using hx
      rw [← honLink] at rest
      simp only [makeDirectories, hx]
      exact ih hlinks rest

/-- **Removing a file.**  In a file tree, a path that leads to a file and ends in a name can be
    removed.  This leaves a file tree in which nothing else is found than before, and every other
    path to a file still leads there, unless it leads to the same file. -/
theorem exists_remove_of_isFile {before : List Text} (htree : d.IsTree)
    (hname : Path.IsName name) (hpieces : p.pieces = before ++ [name])
    (hfile : d.isFile p = true) :
    ∃ d', d.remove p = some d' ∧ d'.IsTree ∧ d'.Within d ∧
      ∀ q, d.isFile q = true → ¬d.Coincide p q → d'.isFile q = true := by
  obtain ⟨l, content, hl, hentry⟩ := exists_resolve_of_isFile hfile
  obtain ⟨-, -, hfollow⟩ := resolve_eq_ok_iff.1 hl
  rw [hpieces] at hfollow
  obtain ⟨parent, hparent, left, -, hlast⟩ := exists_of_follow_append before hfollow
  obtain ⟨e, hstanding, hsolid⟩ := exists_entry?_of_last hname hlast hentry
  have hmake := makeDirectories_of_follow (Nat.le_refl _) (entry?_of_follow_cons hlast) hparent
  have hparents : d.makeParents p = some (d, parent, name) := by
    have hdrop : (p.text.splitOn '/').reverse.dropWhile Path.isIdle = name :: before.reverse := by
      show p.pieces.reverse.dropWhile Path.isIdle = _
      rw [hpieces, List.reverse_append, List.reverse_singleton, List.singleton_append,
        List.dropWhile_cons_of_neg (by simp [Path.isIdle, hname.1])]
    rw [makeParents, hdrop]
    simp only [List.reverse_reverse, hmake, Option.map_some]
  have hr : name :: parent ≠ [] := List.cons_ne_nil _ _
  refine ⟨d.removeAt (name :: parent), ?_, htree.removeAt hr, within_removeAt hr d, ?_⟩
  · have hsome : (d.entry? (name :: parent)).isSome = true := by
      rw [hstanding]
      rfl
    rw [remove, hparents]
    exact if_pos hsome
  · intro q hq hother
    obtain ⟨k, content', hk, hentry'⟩ := exists_resolve_of_isFile hq
    obtain ⟨hnul, hne, hway⟩ := resolve_eq_ok_iff.1 hk
    -- the path starts in a directory, and below a file or a link there is none
    have hstart : ¬name :: parent <:+ startOf q.text d.workingDirectory := by
      intro hbelow
      obtain ⟨x, xs, hxs⟩ := List.exists_cons_of_ne_nil (List.splitOn_ne_nil '/' q.text)
      have hdirectory : d.entry? (startOf q.text d.workingDirectory) = some .directory :=
        entry?_of_follow_cons ((congrArg _ hxs).symm.trans hway)
      have habove : d.entry? (name :: parent) = some .directory := by
        by_cases heq : name :: parent = startOf q.text d.workingDirectory
        · rw [heq, hdirectory]
        · exact htree.entry?_of_suffix (by rw [hdirectory]; rfl) hbelow heq
      rw [hstanding] at habove
      exact hsolid (Option.some.inj habove)
    rcases follow_removeAt (fun links rest => eq_of_follow_past hlast hentry) hstart hway with
      hway' | hsame
    · obtain ⟨content'', hfind⟩ := isFile_iff.1 hq
      have hk' : (d.removeAt (name :: parent)).resolve none q = .ok k :=
        resolve_eq_ok_iff.2 ⟨hnul, hne, hway'⟩
      exact isFile_iff.2 ⟨content'', (within_removeAt hr d).find_of_resolve hfind hk'⟩
    · exact absurd ⟨l, hl, hsame ▸ hk⟩ hother

end SassImports.Disk
