/-
  SassImports/Proofs/Resolve/FileEntry.lean
  =========================================
  A file in the place of a directory to search.  A path below a file leads nowhere, and the disk says
  so with a fault of its own, which is not that of a missing file (`exists?_join_of_isFile`).  The
  search ends at that fault: a file on the search path is passed over only by an import that is
  resolved before it, or that is not searched for at all (`resolveImport_of_isFile`).
-/
import SassImports.Proofs.Resolve.Priority
import SassImports.Proofs.Resolve.Spelling

namespace SassImports

variable {d : Disk} {p q : Path} {id : FilterId} {r : Reference}

namespace Disk

/-- What is reported of a path below a file. -/
def faultBelow (file : Path) : IoError :=
  if '\x00' ∈ file.text then .nulInPath
  else if pathLimit ≤ Text.byteLength file.text then .invalidFilename
  else .notADirectory

theorem follow_of_file {links : Nat} {l : Location} {content : Content} {xs : List Text}
    (h : d.entry? l = some (.file content)) (hxs : xs ≠ []) :
    d.follow none links l xs = .error .notADirectory := by
  obtain ⟨x, xs, rfl⟩ := List.exists_cons_of_ne_nil hxs
  exact follow_of_fault (by simp [step, h]) links xs

theorem exists_resolve_of_isFile (h : d.isFile p = true) :
    ∃ l content, d.resolve none p = .ok l ∧ d.entry? l = some (.file content) := by
  unfold isFile at h
  split at h
  · next content hfind =>
    obtain ⟨l, hl, hentry⟩ := exists_resolve_of_find hfind
    exact ⟨l, content, hl, hentry⟩
  · cases h

theorem exists?_join_of_isFile (h : d.isFile p = true) (hq : q.isAbsolute = false) :
    d.exists? (p.join q) = .error (faultBelow (p.join q)) := by
  obtain ⟨l, content, hl, hentry⟩ := exists_resolve_of_isFile h
  by_cases hnul : '\x00' ∈ (p.join q).text
  · simp [exists?, find, locate, resolve, faultBelow, hnul]
  · by_cases hlong : pathLimit ≤ Text.byteLength (p.join q).text
    · simp [exists?, find, locate, faultBelow, hnul, hlong]
    · have hnul' : '\x00' ∉ q.text := by
        intro hmem
        apply hnul
        rw [Path.join_of_relative (resolve_eq_ok_iff.1 hl).2.1 hq]
        exact List.mem_append_right _ hmem
      obtain ⟨left, -, hgo⟩ := resolve_join hl hq hnul'
      have hpieces : q.pieces ≠ [] := List.splitOn_ne_nil '/' q.text
      rw [follow_of_file hentry hpieces] at hgo
      simp [exists?, find, locate, faultBelow, hnul, hlong, hgo]

end Disk

/-! ### Searches -/

/-- A search that begins in a file ends there. -/
theorem outcome_resolveImport_cons_of_isFile (hfile : d.isFile p = true) (id : FilterId)
    (es : List Path) (hr : r ≠ []) (hcss : Reference.isPlainCss r = false) :
    ∃ candidate, (Reference.candidates r).head? = some candidate ∧
      (resolveImport (.ofDisk d) id ⟨p :: es⟩ r).outcome =
        .error (.probe (placeIn p candidate) (Disk.faultBelow (placeIn p candidate))) := by
  cases hcandidates : Reference.candidates r with
  | nil =>
    have hlength := Reference.length_candidates r
    rw [hcandidates] at hlength
    split at hlength <;> cases hlength
  | cons candidate others =>
    have hfails : (Context.ofDisk d).Fails (p, placeIn p candidate)
        (.probe (placeIn p candidate) (Disk.faultBelow (placeIn p candidate))) :=
      .probe (Disk.exists?_join_of_isFile hfile (isAbsolute_trimStart candidate))
    refine ⟨candidate, rfl, ?_⟩
    rw [outcome_resolveImport_eq _ hr hcss, hcandidates]
    show (firstMatch _ ((p, placeIn p candidate) :: _)).outcome.map _ = _
    rw [firstMatch_of_fails hfails]
    rfl

/-- **A file on the search path.**  Whether the file is on the search path makes no difference for a
    reference that the directories before it decide, nor for one that is not searched for.  Any
    other reference fails at the first place below the file, whatever the directories after it
    hold. -/
theorem resolveImport_of_isFile (hfile : d.isFile p = true) (id : FilterId) (ds es : List Path)
    (r : Reference) :
    (r = [] ∨ Reference.isPlainCss r = true ∨
        (resolveImport (.ofDisk d) id ⟨ds⟩ r).outcome ≠ .ok none →
      (resolveImport (.ofDisk d) id ⟨ds ++ p :: es⟩ r).outcome =
        (resolveImport (.ofDisk d) id ⟨ds ++ es⟩ r).outcome) ∧
    (r ≠ [] → Reference.isPlainCss r = false →
      (resolveImport (.ofDisk d) id ⟨ds⟩ r).outcome = .ok none →
        ∃ candidate, (Reference.candidates r).head? = some candidate ∧
          (resolveImport (.ofDisk d) id ⟨ds ++ p :: es⟩ r).outcome =
            .error (.probe (placeIn p candidate) (Disk.faultBelow (placeIn p candidate)))) := by
  constructor
  · rintro (rfl | hcss | hfound)
    · rfl
    · rw [resolveImport_idle_eq _ id _ _ (.inr hcss)]
    · rw [outcome_resolveImport_append, outcome_resolveImport_append, if_neg hfound, if_neg hfound]
  · intro hr hcss hnone
    obtain ⟨candidate, hhead, houtcome⟩ :=
      outcome_resolveImport_cons_of_isFile hfile id es hr hcss
    rw [outcome_resolveImport_append, if_pos hnone]
    exact ⟨candidate, hhead, houtcome⟩

/-- A file on the search path, before the directory that has the import. -/
def obstructedDisk : Disk where
  entries :=
    [(["lib".toList], .file (.text [])),
      (["vendor".toList], .directory),
      (["a.scss".toList, "vendor".toList], .file (.text []))]
  workingDirectory := []

theorem resolveImport_of_isFile_obstructed :
    obstructedDisk.isFile (.ofString "lib") = true ∧ "a".toList ≠ [] ∧
      Reference.isPlainCss "a".toList = false ∧
      (resolveImport (.ofDisk obstructedDisk) .sassc ⟨[]⟩ "a".toList).outcome = .ok none ∧
      ∃ candidate, (Reference.candidates "a".toList).head? = some candidate ∧
        (resolveImport (.ofDisk obstructedDisk) .sassc ⟨[.ofString "lib", .ofString "vendor"]⟩
            "a".toList).outcome =
          .error (.probe (placeIn (.ofString "lib") candidate)
            (Disk.faultBelow (placeIn (.ofString "lib") candidate))) := by
  have hfile : obstructedDisk.isFile (.ofString "lib") = true := by decide
  have hnone : (resolveImport (.ofDisk obstructedDisk) .sassc ⟨[]⟩ "a".toList).outcome =
      .ok none := by
    decide
  exact ⟨hfile, by decide, by decide, hnone,
    (resolveImport_of_isFile hfile .sassc [] [.ofString "vendor"] "a".toList).2 (by decide)
      (by decide) hnone⟩

theorem file_ends_search :
    obstructedDisk.isFile (.ofString "lib") = true ∧
      (resolveImport (.ofDisk obstructedDisk) .sassc ⟨[.ofString "lib", .ofString "vendor"]⟩
          "a".toList).outcome =
        .error (.probe (.ofString "lib/a.scss") .notADirectory) ∧
      (resolveImport (.ofDisk obstructedDisk) .sassc ⟨[.ofString "vendor"]⟩ "a".toList).outcome =
        .ok (some ((Asset.ofPaths (.ofString "vendor") (.ofString "a.scss")).ensureFilter
          .sassc)) := by
  decide +kernel

end SassImports
