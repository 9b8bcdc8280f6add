/-
  SassImports/Proofs/Resolve/OnDisk.lean
  ======================================
  Searches on a disk.  Whatever stands at a place ends the search there, a directory as well as a
  file, and so does a place of which it cannot be told whether anything stands there; what comes
  after it is not looked at.

    * `resolveImport_ofDisk_eq_error_iff`: a reference below existing directories fails at the first
      place that is not empty, if this place has one of the faults of `Disk.Faults`;
    * `leadsTo_path_ofFile`: the asset made for a place leads where the place does;
    * `exists_child_leadsTo_iff`: the children of a source lead to what stands first at the places of
      its references.
-/
import SassImports.Proofs.Disk.Fault
import SassImports.Proofs.Resolve.Children
import SassImports.Proofs.Resolve.Spelling

namespace SassImports

variable {c : Context} {d : Disk} {id : FilterId} {s : SearchPath} {r : Reference} {a : Asset}
  {e : Failure} {x : Path × Path} {p q : Path} {entry entry' : Entry}

/-! ### Ends of a search

An outcome of a search says where the search has ended. -/

theorem outcome_eq_some_iff (hr : r ≠ []) (hcss : Reference.isPlainCss r = false) :
    (resolveImport c id s r).outcome = .ok (some a) ↔
      ∃ before x after leaf, places s.directories (Reference.candidates r) = before ++ x :: after ∧
        (∀ y ∈ before, c.Misses y) ∧ c.Qualifies x leaf ∧ a = leaf.ensureFilter id := by
  constructor
  · intro h
    obtain ⟨asked, -, hends⟩ := exists_ends c id s hr hcss
    rw [h] at hends
    cases hends with
    | found pairs misses qualifies => exact ⟨_, _, _, _, pairs, misses, qualifies, rfl⟩
  · rintro ⟨before, x, after, leaf, hplaces, hbefore, hx, rfl⟩
    rw [resolveImport_of_qualifies id hr hcss hplaces hbefore hx]

theorem outcome_eq_error_iff :
    (resolveImport c id s r).outcome = .error e ↔ r ≠ [] ∧ Reference.isPlainCss r = false ∧
      ∃ before x after, places s.directories (Reference.candidates r) = before ++ x :: after ∧
        (∀ y ∈ before, c.Misses y) ∧ c.Fails x e := by
  constructor
  · intro h
    by_cases hidle : r = [] ∨ Reference.isPlainCss r = true
    · rw [(resolveImport_of_idle c id s hidle).1] at h
      cases h
    · obtain ⟨hr, hcss⟩ := not_or.1 hidle
      have hcss : Reference.isPlainCss r = false := by simpa using hcss
      obtain ⟨asked, -, hends⟩ := exists_ends c id s hr hcss
      rw [h] at hends
      cases hends with
      | failed pairs misses fails => exact ⟨hr, hcss, _, _, _, pairs, misses, fails⟩
  · rintro ⟨hr, hcss, before, x, after, hplaces, hbefore, hx⟩
    rw [resolveImport_of_fails id hr hcss hplaces hbefore hx]

/-! ### Places on a disk -/

theorem misses_ofDisk_iff : (Context.ofDisk d).Misses x ↔ d.exists? x.2 = .ok false := by
  rw [Context.misses_iff]
  constructor
  · rintro (hprobe | ⟨-, hassets⟩)
    · exact hprobe
    · cases hassets
  · intro hprobe
    exact Or.inl hprobe

theorem qualifies_ofDisk_iff :
    (Context.ofDisk d).Qualifies x a ↔ d.exists? x.2 = .ok true ∧ a = Asset.ofFile x.2 x.1 := by
  constructor
  · rintro ⟨hprobe, others, hassets⟩
    cases hassets
    exact ⟨hprobe, rfl⟩
  · rintro ⟨hprobe, rfl⟩
    exact ⟨hprobe, [], rfl⟩

theorem fails_ofDisk_iff :
    (Context.ofDisk d).Fails x e ↔
      ∃ fault, d.exists? x.2 = .error fault ∧ e = .probe x.2 fault := by
  constructor
  · intro h
    cases h with
    | probe error => exact ⟨_, error, rfl⟩
    | create _ error => cases error
  · rintro ⟨fault, hprobe, rfl⟩
    exact .probe hprobe

/-- Where a place comes from. -/
theorem exists_of_places_eq {directories : List Path} {candidates : List Reference}
    {before after : List (Path × Path)}
    (h : places directories candidates = before ++ x :: after) :
    ∃ directory ∈ directories, ∃ candidate ∈ candidates,
      x = (directory, placeIn directory candidate) := by
  have hx : x ∈ places directories candidates := by
    rw [h]
    exact List.mem_append_cons_self
  obtain ⟨directory, hdirectory, hx⟩ := List.mem_flatMap.1 hx
  obtain ⟨candidate, hcandidate, rfl⟩ := List.mem_map.1 hx
  exact ⟨directory, hdirectory, candidate, hcandidate, rfl⟩

/-! ### Failing -/

/-- **Which references fail.**  Below existing directories a reference fails exactly if the first of
    its places that is not known to be empty has a fault: a NUL, too long a path or name, a way
    through something that is no directory or through a link that cannot be followed. -/
theorem resolveImport_ofDisk_eq_error_iff
    (hdirectories : ∀ directory ∈ s.directories, d.find directory = .ok .directory) :
    (resolveImport (.ofDisk d) id s r).outcome = .error e ↔
      r ≠ [] ∧ Reference.isPlainCss r = false ∧
        ∃ before directory candidate after fault,
          places s.directories (Reference.candidates r) =
            before ++ (directory, placeIn directory candidate) :: after ∧
          (∀ y ∈ before, d.exists? y.2 = .ok false) ∧ candidate ∈ Reference.candidates r ∧
          d.Faults directory ⟨Text.trimStart '/' candidate⟩ fault ∧
          e = .probe (placeIn directory candidate) fault := by
  simp only [outcome_eq_error_iff, misses_ofDisk_iff, fails_ofDisk_iff]
  constructor
  · rintro ⟨hr, hcss, before, x, after, hplaces, hbefore, fault, hprobe, rfl⟩
    obtain ⟨directory, hdirectory, candidate, hcandidate, rfl⟩ := exists_of_places_eq hplaces
    have hfaults := (Disk.exists?_join_eq_error_iff (hdirectories directory hdirectory)
      (isAbsolute_trimStart candidate)).1 hprobe
    exact ⟨hr, hcss, before, directory, candidate, after, fault, hplaces, hbefore, hcandidate,
      hfaults, rfl⟩
  · rintro ⟨hr, hcss, before, directory, candidate, after, fault, hplaces, hbefore, -, hfaults, rfl⟩
    obtain ⟨directory', hdirectory, candidate', -, heq⟩ := exists_of_places_eq hplaces
    obtain rfl : directory = directory' := congrArg Prod.fst heq
    have hprobe := (Disk.exists?_join_eq_error_iff (hdirectories directory hdirectory)
      (isAbsolute_trimStart candidate)).2 hfaults
    exact ⟨hr, hcss, before, _, after, hplaces, hbefore, fault, hprobe, rfl⟩

/-- A library with a file and a directory in it, and no links. -/
def libraryDisk : Disk where
  entries :=
    [(["lib".toList], .directory),
      (["base.scss".toList, "lib".toList], .file (.text [])),
      (["a.scss".toList, "lib".toList], .directory),
      (["vendor".toList], .directory),
      (["a.scss".toList, "vendor".toList], .file (.text []))]
  workingDirectory := []

theorem resolveImport_ofDisk_eq_error_library :
    (∀ directory ∈ [Path.ofString "vendor", Path.ofString "lib"],
      libraryDisk.find directory = .ok .directory) ∧
    ∃ before directory candidate after fault,
      places [.ofString "vendor", .ofString "lib"]
          (Reference.candidates "base.scss/mixins".toList) =
        before ++ (directory, placeIn directory candidate) :: after ∧
      (∀ y ∈ before, libraryDisk.exists? y.2 = .ok false) ∧
      candidate ∈ Reference.candidates "base.scss/mixins".toList ∧
      libraryDisk.Faults directory ⟨Text.trimStart '/' candidate⟩ fault ∧
      Failure.probe (.ofString "lib/base.scss/mixins.scss") .notADirectory =
        .probe (placeIn directory candidate) fault := by
  have hdirectories : ∀ directory ∈ [Path.ofString "vendor", Path.ofString "lib"],
      libraryDisk.find directory = .ok .directory := by
    decide
  have houtcome : (resolveImport (.ofDisk libraryDisk) .sassc
      ⟨[.ofString "vendor", .ofString "lib"]⟩ "base.scss/mixins".toList).outcome =
        .error (.probe (.ofString "lib/base.scss/mixins.scss") .notADirectory) := by
    decide +kernel
  obtain ⟨-, -, hfault⟩ := (resolveImport_ofDisk_eq_error_iff hdirectories).1 houtcome
  exact ⟨hdirectories, hfault⟩

/-- A way through a file, a NUL and a name of three hundred characters. -/
theorem references_end_search :
    (∀ x ∈ libraryDisk.entries, ∀ target, x.2 ≠ .link target) ∧
      libraryDisk.find (.ofString "lib") = .ok .directory ∧
      (resolveImport (.ofDisk libraryDisk) .sassc ⟨[.ofString "lib"]⟩
          "base.scss/mixins".toList).outcome =
        .error (.probe (.ofString "lib/base.scss/mixins.scss") .notADirectory) ∧
      (resolveImport (.ofDisk libraryDisk) .sassc ⟨[.ofString "lib"]⟩ ['\x00']).outcome =
        .error (.probe ⟨"lib/".toList ++ '\x00' :: ".scss".toList⟩ .nulInPath) ∧
      (resolveImport (.ofDisk libraryDisk) .sassc ⟨[.ofString "lib"]⟩
          (List.replicate 300 'a')).outcome =
        .error (.probe ⟨"lib/".toList ++ (List.replicate 300 'a' ++ ".scss".toList)⟩
          .invalidFilename) := by
  have hlinks : ∀ x ∈ libraryDisk.entries, ∀ target, x.2 ≠ .link target := by
    simp [libraryDisk]
  exact ⟨hlinks, by decide +kernel⟩

/-! ### Finding -/

def Disk.LeadsTo (d : Disk) (p : Path) (entry : Entry) : Prop :=
  ∃ l, d.resolve none p = .ok l ∧ d.entry? l = some entry

theorem Disk.LeadsTo.unique (h : d.LeadsTo p entry) (h' : d.LeadsTo p entry') : entry = entry' := by
  obtain ⟨l, hl, hentry⟩ := h
  obtain ⟨l', hl', hentry'⟩ := h'
  obtain rfl := Except.ok.inj (hl.symm.trans hl')
  exact Option.some.inj (hentry.symm.trans hentry')

/-- At the first of these places at which anything stands there is this entry. -/
def Disk.FirstAt (d : Disk) (xs : List (Path × Path)) (entry : Entry) : Prop :=
  ∃ before x after, xs = before ++ x :: after ∧ (∀ y ∈ before, d.exists? y.2 = .ok false) ∧
    d.find x.2 = .ok entry

theorem exists?_eq_true_iff : d.exists? p = .ok true ↔ ∃ entry, d.find p = .ok entry := by
  unfold Disk.exists?
  rcases d.find p with error | entry
  · cases error <;> simp
  · simp

theorem leadsTo_path_ofFile (hq : q.isAbsolute = false) (h : d.find (p.join q) = .ok entry) :
    d.LeadsTo (Asset.ofFile (p.join q) p).path entry := by
  obtain ⟨l, hl, hentry⟩ := Disk.exists_resolve_of_find h
  exact ⟨l, (Disk.resolve_path_ofFile_join hq hl).trans hl, hentry⟩

/-- A search finds the first place at which anything stands. -/
theorem outcome_ofDisk_eq_some_iff (hr : r ≠ []) (hcss : Reference.isPlainCss r = false) :
    (resolveImport (.ofDisk d) id s r).outcome = .ok (some a) ↔
      ∃ before x after entry, places s.directories (Reference.candidates r) =
          before ++ x :: after ∧
        (∀ y ∈ before, d.exists? y.2 = .ok false) ∧ d.find x.2 = .ok entry ∧
          a = (Asset.ofFile x.2 x.1).ensureFilter id := by
  simp only [outcome_eq_some_iff hr hcss, misses_ofDisk_iff, qualifies_ofDisk_iff,
    exists?_eq_true_iff]
  constructor
  · rintro ⟨before, x, after, leaf, hplaces, hbefore, ⟨⟨entry, hfind⟩, rfl⟩, rfl⟩
    exact ⟨before, x, after, entry, hplaces, hbefore, hfind, rfl⟩
  · rintro ⟨before, x, after, entry, hplaces, hbefore, hfind, rfl⟩
    exact ⟨before, x, after, _, hplaces, hbefore, ⟨⟨entry, hfind⟩, rfl⟩, rfl⟩

theorem leadsTo_of_places_eq {candidates : List Reference} {before after : List (Path × Path)}
    (hplaces : places s.directories candidates = before ++ x :: after)
    (hfind : d.find x.2 = .ok entry) :
    d.LeadsTo ((Asset.ofFile x.2 x.1).ensureFilter id).path entry := by
  obtain ⟨directory, -, candidate, -, rfl⟩ := exists_of_places_eq hplaces
  rw [path_ensureFilter]
  exact leadsTo_path_ofFile (isAbsolute_trimStart candidate) hfind

theorem exists_asset_of_firstAt (hr : r ≠ []) (hcss : Reference.isPlainCss r = false)
    (h : d.FirstAt (places s.directories (Reference.candidates r)) entry) :
    ∃ a, (resolveImport (.ofDisk d) id s r).outcome = .ok (some a) ∧ d.LeadsTo a.path entry := by
  obtain ⟨before, x, after, hplaces, hbefore, hfind⟩ := h
  refine ⟨(Asset.ofFile x.2 x.1).ensureFilter id, ?_, leadsTo_of_places_eq hplaces hfind⟩
  rw [outcome_ofDisk_eq_some_iff hr hcss]
  exact ⟨before, x, after, entry, hplaces, hbefore, hfind, rfl⟩

theorem exists_firstAt_of_asset (hr : r ≠ []) (hcss : Reference.isPlainCss r = false)
    (h : (resolveImport (.ofDisk d) id s r).outcome = .ok (some a)) :
    ∃ entry, d.LeadsTo a.path entry ∧
      d.FirstAt (places s.directories (Reference.candidates r)) entry := by
  obtain ⟨before, x, after, entry, hplaces, hbefore, hfind, rfl⟩ :=
    (outcome_ofDisk_eq_some_iff hr hcss).1 h
  exact ⟨entry, leadsTo_of_places_eq hplaces hfind, before, x, after, hplaces, hbefore, hfind⟩

/-- The assets of references lead to what stands first at the places of one of them. -/
theorem exists_firstAt_of_mem {rs : List Reference} {assets : List Asset}
    (h : (resolveImports (.ofDisk d) id s rs).outcome = .ok assets) (ha : a ∈ assets) :
    ∃ entry, d.LeadsTo a.path entry ∧ ∃ r ∈ rs, r ≠ [] ∧ Reference.isPlainCss r = false ∧
      d.FirstAt (places s.directories (Reference.candidates r)) entry := by
  obtain ⟨r, hr, hfound⟩ := ((outcome_resolveImports h).2 a).1 ha
  rcases outcome_resolveImport hfound with ⟨-, hnone⟩ | ⟨hne, hcss, -⟩
  · cases hnone
  · have hne : r ≠ [] := by simpa using hne
    obtain ⟨entry, hpath, hfirst⟩ := exists_firstAt_of_asset hne hcss hfound
    exact ⟨entry, hpath, r, hr, hne, hcss, hfirst⟩

/-- **What stands first is imported.**  The children of a source lead to something that exists, be it
    a file or a directory: to what stands first at the places of one of its references, whatever
    stands at the places behind it. -/
theorem exists_child_leadsTo_iff {f : Filter} {source : Text} {leading? : Option Path}
    {assets : List Asset}
    (h : (resolveChildren (.ofDisk d) f source leading?).outcome = .ok assets) :
    (∀ a ∈ assets, ∃ entry, d.LeadsTo a.path entry) ∧
      ∀ entry, (∃ a ∈ assets, d.LeadsTo a.path entry) ↔
        ∃ r ∈ Stylesheet.importReferences source, r ≠ [] ∧ Reference.isPlainCss r = false ∧
          d.FirstAt (places (SearchPath.ofLoadPaths leading? f.loadPaths).directories
            (Reference.candidates r)) entry := by
  by_cases hnothing : NothingToSearch leading? f.loadPaths
  · rw [resolveChildren_of_nothingToSearch hnothing] at h
    obtain rfl := Except.ok.inj h
    have hempty : (SearchPath.ofLoadPaths leading? f.loadPaths).directories = [] :=
      List.isEmpty_iff.1 (isEmpty_ofLoadPaths_iff.2 hnothing)
    refine ⟨by simp, fun entry => ⟨by simp, ?_⟩⟩
    rintro ⟨r, -, -, -, before, x, after, hplaces, -⟩
    rw [hempty] at hplaces
    simp [places] at hplaces
  · rw [resolveChildren_of_searched hnothing] at h
    constructor
    · intro a ha
      obtain ⟨entry, hpath, -⟩ := exists_firstAt_of_mem h ha
      exact ⟨entry, hpath⟩
    · intro entry
      constructor
      · rintro ⟨a, ha, hpath⟩
        obtain ⟨entry', hpath', hfirst⟩ := exists_firstAt_of_mem h ha
        obtain rfl := hpath.unique hpath'
        exact hfirst
      · rintro ⟨r, hr, hne, hcss, hfirst⟩
        obtain ⟨a, hfound, hpath⟩ := exists_asset_of_firstAt hne hcss hfirst
        exact ⟨a, ((outcome_resolveImports h).2 a).2 ⟨r, hr, hfound⟩, hpath⟩

def libraryFilter : Filter := .ofLoadPaths ⟨[.ofString "lib", .ofString "vendor"]⟩

def libraryAssets : List Asset :=
  [(Asset.ofPaths (.ofString "lib") (.ofString "a.scss")).ensureFilter .sassc,
    (Asset.ofPaths (.ofString "lib") (.ofString "base.scss")).ensureFilter .sassc]

theorem exists_child_leadsTo_library :
    (resolveChildren (.ofDisk libraryDisk) libraryFilter "@import 'a', 'b', 'base';".toList
        none).outcome = .ok libraryAssets ∧
      (∀ a ∈ libraryAssets, ∃ entry, libraryDisk.LeadsTo a.path entry) ∧
        ∀ entry, (∃ a ∈ libraryAssets, libraryDisk.LeadsTo a.path entry) ↔
          ∃ r ∈ Stylesheet.importReferences "@import 'a', 'b', 'base';".toList,
            r ≠ [] ∧ Reference.isPlainCss r = false ∧
              libraryDisk.FirstAt (places (SearchPath.ofLoadPaths none
                libraryFilter.loadPaths).directories (Reference.candidates r)) entry := by
  have houtcome : (resolveChildren (.ofDisk libraryDisk) libraryFilter
      "@import 'a', 'b', 'base';".toList none).outcome = .ok libraryAssets := by
    decide +kernel
  exact ⟨houtcome, exists_child_leadsTo_iff houtcome⟩

/-- The directory comes first, and the file behind it is not found. -/
theorem directory_satisfies_import :
    ∃ a, (resolveChildren (.ofDisk libraryDisk) libraryFilter "@import 'a';".toList none).outcome =
        .ok [a] ∧
      a.path = .ofString "lib/a.scss" ∧ libraryDisk.LeadsTo a.path .directory ∧
      libraryDisk.LeadsTo (.ofString "vendor/a.scss") (.file (.text [])) := by
  refine ⟨(Asset.ofPaths (.ofString "lib") (.ofString "a.scss")).ensureFilter .sassc,
    by decide +kernel, by decide +kernel, ?_, ?_⟩
  · exact ⟨["a.scss".toList, "lib".toList], by decide +kernel⟩
  · exact ⟨["a.scss".toList, "vendor".toList], by decide +kernel⟩

end SassImports
