/-
  SassImports/Proofs/Disk/Shape.lean
  ==================================
  Disks that differ in what their files hold and in nothing else.  Following a path looks at
  directories, links and names only, so it ends alike on both disks; only reading the very file at
  the end can tell them apart.

    * `SameShape.resolve_eq` and `SameShape.exists?_eq`: where a path leads, and whether something
      is there, does not depend on what files hold;
    * `SameShape.read_eq`: reading depends on the one file that is read.
-/
import SassImports.Disk

namespace SassImports

/-- The entry with nothing said of what a file holds. -/
def Entry.emptied : Entry → Entry
  | .file _ => .file .binary
  | e => e

namespace Disk

/-- Both disks have the same directories, links and file names. -/
structure SameShape (d d' : Disk) : Prop where
  workingDirectory : d.workingDirectory = d'.workingDirectory
  entries : ∀ l, (d.entry? l).map Entry.emptied = (d'.entry? l).map Entry.emptied

variable {d d' : Disk} {l : Location} {p : Path}

/-- Disks that are written down alike but for what files hold have the same shape. -/
theorem sameShape_of_map_emptied (hdirectory : d.workingDirectory = d'.workingDirectory)
    (hentries : d.entries.map (Prod.map id Entry.emptied) =
      d'.entries.map (Prod.map id Entry.emptied)) : d.SameShape d' := by
  have hfind : ∀ (entries : List (Location × Entry)) (l : Location),
      ((entries.find? (·.1 = l)).map (·.2)).map Entry.emptied =
        ((entries.map (Prod.map id Entry.emptied)).find? (·.1 = l)).map (·.2) := by
    intro entries l
    simp [List.find?_map, Function.comp_def, Option.map_map]
  constructor
  case workingDirectory => exact hdirectory
  case entries =>
    intro l
    cases l with
    | nil => rfl
    | cons n l =>
      unfold entry?
      rw [hfind, hfind, hentries]

/-- What stands at a place on the first disk stands there on the second one, or there is a file at
    this place on both. -/
theorem SameShape.entry?_cases (h : d.SameShape d') (l : Location) :
    d.entry? l = d'.entry? l ∨
      ∃ c c', d.entry? l = some (.file c) ∧ d'.entry? l = some (.file c') := by
  have hl := h.entries l
  rcases he : d.entry? l with _ | e <;> rcases he' : d'.entry? l with _ | e' <;> rw [he, he'] at hl
  · exact Or.inl rfl
  · cases hl
  · cases hl
  · cases e <;> cases e' <;> simp_all [Entry.emptied]

theorem SameShape.step_eq (h : d.SameShape d') (limit? : Option Nat) (here : Location) (x : Text) :
    d.step limit? here x = d'.step limit? here x := by
  unfold step
  rcases h.entry?_cases here with he | ⟨c, c', he, he'⟩
  · rw [he]
    split
    · rfl
    · split
      · split
        · rfl
        · next name _ =>
          -- the step into `name` asks for one more entry
          rcases h.entry?_cases (name :: here) with hn | ⟨c, c', hn, hn'⟩
          · rw [hn]
          · rw [hn, hn']
        · rfl
      · rfl
      · rfl
  · rw [he, he']

theorem SameShape.followWith_eq (h : d.SameShape d') (limit? : Option Nat)
    (onLink : Location → List Text → Except IoError Location) (here : Location) (xs : List Text) :
    d.followWith limit? onLink here xs = d'.followWith limit? onLink here xs := by
  induction xs generalizing here with
  | nil =>
    unfold followWith
    rcases h.entry?_cases here with he | ⟨c, c', he, he'⟩
    · rw [he]
    · rw [he, he']
      rfl
  | cons x xs ih =>
    rw [followWith, followWith, h.step_eq]
    split
    · rfl
    · exact ih _
    · rfl

theorem SameShape.follow_eq (h : d.SameShape d') (limit? : Option Nat) (links : Nat)
    (here : Location) (xs : List Text) :
    d.follow limit? links here xs = d'.follow limit? links here xs := by
  induction links generalizing here xs with
  | zero => exact h.followWith_eq limit? _ here xs
  | succ links ih =>
    have hlinks : d.follow limit? links = d'.follow limit? links := by
      funext here xs
      exact ih here xs
    unfold follow
    rw [hlinks]
    exact h.followWith_eq limit? _ here xs

theorem SameShape.resolve_eq (h : d.SameShape d') (limit? : Option Nat) (p : Path) :
    d.resolve limit? p = d'.resolve limit? p := by
  unfold resolve
  rw [h.workingDirectory, h.follow_eq]

theorem SameShape.canonicalize_eq (h : d.SameShape d') (p : Path) :
    d.canonicalize p = d'.canonicalize p := h.resolve_eq _ p

theorem SameShape.locate_eq (h : d.SameShape d') (p : Path) : d.locate p = d'.locate p := by
  unfold locate
  rw [h.resolve_eq]

theorem SameShape.exists?_eq (h : d.SameShape d') (p : Path) : d.exists? p = d'.exists? p := by
  unfold exists? find
  rw [← h.locate_eq]
  cases d.locate p with
  | error e => rfl
  | ok l =>
    rcases h.entry?_cases l with he | ⟨c, c', he, he'⟩
    · simp only [he]
    · simp only [he, he']

/-- A file that holds the same on both disks reads the same. -/
theorem SameShape.read_eq (h : d.SameShape d') (hl : d.resolve none p = .ok l)
    (he : d.entry? l = d'.entry? l) : d.read p = d'.read p := by
  unfold read find
  rw [← h.locate_eq]
  cases hlocate : d.locate p with
  | error e => rfl
  | ok k =>
    -- a path that is not too long is found where it leads
    have hk : k = l := by
      unfold locate at hlocate
      split at hlocate
      · cases hlocate
      · exact Except.ok.inj (hlocate.symm.trans hl)
    simp only [hk, he]

end Disk
end SassImports
