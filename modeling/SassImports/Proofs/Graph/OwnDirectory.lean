/-
  SassImports/Proofs/Graph/OwnDirectory.lean
  ==========================================
  A stylesheet's own directory, which is searched first for its imports.  It is the parent of the
  stylesheet's path, and a dot where that would be the empty path, so that it is never left out of
  the search.  Hence there is always something to search in a walk, and the references of every
  stylesheet are extracted.

    * `components_sourceDirectory_join`: the file name, joined to the directory, leads back to the
      path, with a dot before a bare name;
    * `Traced.Paired`: a run extracts once for every stylesheet that it reads, and not otherwise;
    * `paired_children` for one stylesheet and `paired_explore` for a walk;
    * `sourceDirectory_first`: all together.
-/
import SassImports.Graph.Walk
import SassImports.Proofs.Path.Components
import SassImports.Proofs.Resolve.Children
import SassImports.Proofs.Resolve.Spelling

namespace SassImports

/-! ### The directory of a file -/

namespace Asset

variable {a : Asset} {parent : Path} {n : Text}

theorem sourceDirectory_of_parent? (h : a.path.parent? = some parent) :
    a.sourceDirectory = if parent.text = [] then ⟨['.']⟩ else parent := by
  obtain ⟨text⟩ := parent
  unfold sourceDirectory
  rw [h]
  cases text <;> rfl

theorem components_sourceDirectory_join (h : a.path.fileName? = some n) :
    (a.sourceDirectory.join ⟨n⟩).components =
      if a.path.components = [.name n] then [.current, .name n] else a.path.components := by
  obtain ⟨parent, hparent, hcomponents, hname⟩ := Path.exists_parent?_of_fileName? h
  rw [Path.components_join_name a.text_sourceDirectory_ne_nil hname,
    sourceDirectory_of_parent? hparent]
  by_cases hempty : parent.text = []
  · have hnone : parent.components = [] := by
      rw [Path.components, Path.lead?, Path.segments, Path.body, Path.lead?, hempty]
      rfl
    rw [if_pos hempty, if_pos (by rw [hcomponents, hnone]; rfl)]
    rfl
  · have hbare : a.path.components ≠ [.name n] := by
      rw [hcomponents]
      intro heq
      exact Path.components_ne_nil hempty (List.append_left_eq_self.1 heq)
    rw [if_neg hempty, if_neg hbare, hcomponents]

end Asset

/-! ### Reading and extracting -/

/-- What belongs to the reading of a stylesheet: it is opened, and once its text is there, the
    references are extracted from it. -/
def Disk.readingEvents (d : Disk) : Path × Nat → List Event
  | (file, depth) => .read file depth :: if (d.read file).isOk then [.extracted] else []

theorem Disk.readingEvents_of_error {d : Disk} {file : Path} {e : IoError}
    (h : d.read file = .error e) (depth : Nat) :
    d.readingEvents (file, depth) = [.read file depth] := by
  rw [readingEvents, h]
  rfl

theorem Disk.readingEvents_of_ok {d : Disk} {file : Path} {source : Text}
    (h : d.read file = .ok source) (depth : Nat) :
    d.readingEvents (file, depth) = [.read file depth, .extracted] := by
  rw [readingEvents, h]
  rfl

/-- The readings of a run are complete, and nothing else is extracted. -/
def Traced.Paired {α : Type} (d : Disk) (x : Traced α) : Prop :=
  x.events.filter Event.isReading = x.reads.flatMap d.readingEvents

namespace Traced

variable {α β : Type} {d : Disk} {x : Traced α} {f : α → Traced β}

theorem paired_of_quiet (h : ∀ e ∈ x.events, e.isReading = false) : x.Paired d := by
  rw [Paired, reads_eq_nil h]
  exact List.filter_eq_nil_iff.2 fun e he => by simp [h e he]

/-- One reading, and a run after it. -/
theorem paired_of_reading {y : Traced β} {file : Path} {depth : Nat}
    (h : x.events = d.readingEvents (file, depth) ++ y.events) (hy : y.Paired d) :
    x.Paired d := by
  have hreading : (d.readingEvents (file, depth)).filter Event.isReading =
      d.readingEvents (file, depth) := by
    cases hread : d.read file with
    | error e => rw [Disk.readingEvents_of_error hread]; rfl
    | ok source => rw [Disk.readingEvents_of_ok hread]; rfl
  have hreads : (d.readingEvents (file, depth)).filterMap Event.read? = [(file, depth)] := by
    cases hread : d.read file with
    | error e => rw [Disk.readingEvents_of_error hread]; rfl
    | ok source => rw [Disk.readingEvents_of_ok hread]; rfl
  rw [Paired, reads, h, List.filter_append, List.filterMap_append, List.flatMap_append, hreading,
    hreads, List.flatMap_singleton, hy]
  rfl

/-- References are extracted as often as a stylesheet could be read. -/
theorem Paired.extractions_eq (h : x.Paired d) :
    x.extractions = x.reads.countP fun r => (d.read r.1).isOk := by
  have hcount : x.extractions = (x.events.filter Event.isReading).count .extracted :=
    (List.count_filter rfl).symm
  rw [hcount, h]
  induction x.reads with
  | nil => rfl
  | cons r rs ih =>
    obtain ⟨file, depth⟩ := r
    rw [List.flatMap_cons, List.count_append, ih]
    cases hread : d.read file with
    | error e =>
      rw [Disk.readingEvents_of_error hread,
        List.countP_cons_of_neg (by rw [hread]; exact Bool.false_ne_true)]
      exact Nat.zero_add _
    | ok source =>
      rw [Disk.readingEvents_of_ok hread, List.countP_cons_of_pos (by rw [hread]; rfl)]
      exact Nat.add_comm _ _

theorem paired_bind (hx : x.Paired d) (hf : ∀ a, x.outcome = .ok a → (f a).Paired d) :
    (x >>= f).Paired d := by
  cases h : x.outcome with
  | error e =>
    rw [bind_error h]
    exact hx
  | ok a =>
    rw [bind_ok h]
    show List.filter _ (_ ++ _) = List.flatMap _ (List.filterMap _ (_ ++ _))
    rw [List.filter_append, List.filterMap_append, List.flatMap_append, hx, hf a h]
    rfl

end Traced

namespace Survey

variable {s : Survey}

/-- The directory of a stylesheet is there to be searched, so a text that was read is looked
    through. -/
theorem paired_children (s : Survey) (a : Asset) (depth : Nat) :
    (s.children a depth).Paired s.disk := by
  have hsearched : ¬NothingToSearch (some a.sourceDirectory) s.filter.loadPaths := by
    rintro ⟨hnone | hempty, -⟩
    · cases hnone
    · exact a.text_sourceDirectory_ne_nil (by rw [Option.some.inj hempty])
  cases hread : s.disk.read a.path with
  | error e =>
    have hchildren : s.children a depth = ⟨.error (.read a.path e), [.read a.path depth]⟩ := by
      rw [children, readSource, hread]
      rfl
    have hevents : (s.children a depth).events =
        s.disk.readingEvents (a.path, depth) ++ (pure () : Traced Unit).events := by
      rw [hchildren, Disk.readingEvents_of_error hread]
      rfl
    exact Traced.paired_of_reading hevents rfl
  | ok source =>
    have hsource : s.readSource a.path depth = ⟨.ok source, [.read a.path depth]⟩ := by
      rw [readSource, hread]
      rfl
    have hevents : (s.children a depth).events = s.disk.readingEvents (a.path, depth) ++
        (resolveImports s.context s.filter.id
          (.ofLoadPaths (some a.sourceDirectory) s.filter.loadPaths)
          (s.context.references source)).events := by
      rw [children, Traced.bind_ok (by rw [hsource]), hsource,
        resolveChildren_of_searched hsearched, Disk.readingEvents_of_ok hread]
      rfl
    exact Traced.paired_of_reading hevents
      (Traced.paired_of_quiet fun _ he => isReading_of_mem_resolveImports he)

theorem paired_explore (seen : List Location) (agenda : List (Asset × Nat)) :
    (s.explore seen agenda).Paired s.disk := by
  induction seen, agenda using Survey.explore.induct s with
  | case1 seen =>
    rw [explore_nil]
    rfl
  | case2 seen a depth rest e hl =>
    rw [explore_of_error hl]
    rfl
  | case3 seen a depth rest l hl old ih => rwa [explore_of_seen hl old]
  | case4 seen a depth rest l hl fresh far ih =>
    rw [explore_of_stops hl fresh far]
    exact Traced.paired_bind ih fun found _ => rfl
  | case5 seen a depth rest l hl fresh near ih =>
    rw [explore_of_reads hl fresh (by simpa using near)]
    refine Traced.paired_bind (paired_children s a depth) fun assets _ => ?_
    exact Traced.paired_bind (ih assets) fun found _ => rfl

/-- **The directory of a stylesheet is searched first.**  For an asset whose path ends in a file name
    it has a text, and the file name joined to it has the components of the path, but that a bare
    name comes with a dot; so it stands before the load paths, whatever they are.  And in every walk,
    also in one that fails, the references are extracted once for every stylesheet that could be
    read, before the next one is opened, and at no other time: as often as a stylesheet could be
    read. -/
theorem sourceDirectory_first :
    (∀ (a : Asset) (n : Text), a.path.fileName? = some n →
      a.sourceDirectory.text ≠ [] ∧
      (a.sourceDirectory.join ⟨n⟩).components =
        (if a.path.components = [.name n] then [.current, .name n] else a.path.components) ∧
      ∀ l : LoadPaths,
        (SearchPath.ofLoadPaths (some a.sourceDirectory) l).directories =
          a.sourceDirectory :: l.paths ∧
        (SearchPath.ofLoadPaths (some a.sourceDirectory) l).size = l.size + 1) ∧
    ∀ (s : Survey) (entry : Path),
      (s.collect entry).events.filter Event.isReading =
          (s.collect entry).reads.flatMap s.disk.readingEvents ∧
        (s.collect entry).extractions =
          (s.collect entry).reads.countP fun r => (s.disk.read r.1).isOk := by
  constructor
  · intro a n h
    have hdirectory := a.text_sourceDirectory_ne_nil
    refine ⟨hdirectory, Asset.components_sourceDirectory_join h, fun l => ?_⟩
    rw [ofLoadPaths_some hdirectory]
    exact ⟨rfl, rfl⟩
  · intro s entry
    have hpaired : (s.collect entry).Paired s.disk :=
      Traced.paired_bind (paired_explore [] _) fun found _ => rfl
    exact ⟨hpaired, hpaired.extractions_eq⟩

/-- A bare file name, and one below a root that is spelled with dots and doubled slashes. -/
theorem sourceDirectory_first_bare :
    (Asset.ofPaths ⟨[]⟩ (.ofString "main.scss")).path.fileName? = some "main.scss".toList ∧
    ((Asset.ofPaths ⟨[]⟩ (.ofString "main.scss")).sourceDirectory.join
        ⟨"main.scss".toList⟩).components = [.current, .name "main.scss".toList] ∧
    (Asset.ofPaths (.ofString "/.//lib/") (.ofString "./main.scss/.")).path.fileName? =
      some "main.scss".toList ∧
    ((Asset.ofPaths (.ofString "/.//lib/") (.ofString "./main.scss/.")).sourceDirectory.join
        ⟨"main.scss".toList⟩).components =
      (Asset.ofPaths (.ofString "/.//lib/") (.ofString "./main.scss/.")).path.components := by
  have hbare : (Asset.ofPaths ⟨[]⟩ (.ofString "main.scss")).path.fileName? =
      some "main.scss".toList := by
    decide
  have hbelow : (Asset.ofPaths (.ofString "/.//lib/") (.ofString "./main.scss/.")).path.fileName? =
      some "main.scss".toList := by
    decide
  obtain ⟨-, hcomponents, -⟩ := sourceDirectory_first.1 _ _ hbare
  obtain ⟨-, hcomponents', -⟩ := sourceDirectory_first.1 _ _ hbelow
  rw [if_pos (by decide)] at hcomponents
  rw [if_neg (by decide)] at hcomponents'
  exact ⟨hbare, hcomponents, hbelow, hcomponents'⟩

end Survey
end SassImports
