/-
  SassImports/Proofs/Graph/Spelling.lean
  ======================================
  Files that are imported under several spellings.  Such a file is read once, from the directory of
  the spelling that came first, and its imports are looked for there and in the load paths.  Another
  spelling has the same imports as long as its directory answers alike (`lists_of_importsAs`), which
  it does when it is the same directory under whatever name (`lists_of_readsFrom`).  From another
  directory the same text may import other files, and these are lost (`linkedGraph_loses_import`).
-/
import SassImports.Proofs.Graph.Closure
import SassImports.Proofs.Resolve.Spelling

namespace SassImports

/-- No candidate of the reference is in the directory. -/
def Disk.Lacks (d : Disk) (directory : Path) (r : Reference) : Prop :=
  ∀ candidate ∈ Reference.candidates r, d.exists? (placeIn directory candidate) = .ok false

/-- The graph has an edge for the asset's file, whose imports were looked for in the asset's own
    directory. -/
def Graph.ReadsFrom (g : Graph) (d : Disk) (a : Asset) : Prop :=
  ∃ e ∈ g.edges, d.SameFile e.parent a.path ∧
    d.SameFile (Asset.ofPath e.parent).sourceDirectory a.sourceDirectory

namespace Survey

variable {s : Survey} {d : Disk} {f : Filter} {maxDepth? : Option Nat} {entry : Path} {g : Graph}
  {a b : Asset} {imported : List Asset} {r : Reference}

/-! ### Imports one by one -/

/-- The asset's text has the reference, which stands for the second asset when it is looked for in
    the directory of the first one. -/
def ImportsAs (s : Survey) (a : Asset) (r : Reference) (b : Asset) : Prop :=
  ∃ source, s.disk.read a.path = .ok source ∧ r ∈ s.context.references source ∧
    (resolveImport s.context s.filter.id
      (.ofLoadPaths (some a.sourceDirectory) s.filter.loadPaths) r).outcome = .ok (some b)

theorem mem_iff_importsAs (h : s.Imports a imported) : b ∈ imported ↔ ∃ r, s.ImportsAs a r b := by
  obtain ⟨source, hread, h⟩ := h
  have hall := outcome_resolveImports (outcome_resolveChildren a.text_sourceDirectory_ne_nil h)
  rw [hall.2]
  constructor
  · rintro ⟨r, hr, hb⟩
    exact ⟨r, source, hread, hr, hb⟩
  · rintro ⟨r, source', hread', hr, hb⟩
    obtain rfl := Except.ok.inj (hread.symm.trans hread')
    exact ⟨r, hr, hb⟩

/-- What one spelling of a file imports agrees with what another spelling imports, if their
    directories answer alike. -/
theorem exists_importsAs_agree {a' : Asset} (hc : s.context = .ofDisk s.disk)
    (hpath : s.disk.SameFile a'.path a.path)
    (hr : ∀ candidate ∈ Reference.candidates r, s.disk.AgreeAt
      (a'.sourceDirectory, placeIn a'.sourceDirectory candidate)
      (a.sourceDirectory, placeIn a.sourceDirectory candidate))
    (h' : s.Imports a' imported) (h : s.ImportsAs a r b) :
    ∃ b' ∈ imported, s.disk.Agree b' b := by
  obtain ⟨source', hread', h'⟩ := h'
  obtain ⟨source, hread, hmem, hb⟩ := h
  obtain rfl := Disk.read_unique hpath.coincide hread' hread
  obtain ⟨hall, hiff⟩ :=
    outcome_resolveImports (outcome_resolveChildren a'.text_sourceDirectory_ne_nil h')
  obtain ⟨found, hfound⟩ := hall r hmem
  have hfound' := hfound
  rw [hc, ofLoadPaths_some a.text_sourceDirectory_ne_nil] at hb
  rw [hc, ofLoadPaths_some a'.text_sourceDirectory_ne_nil] at hfound
  cases resolveImport_agree hr hfound hb with
  | some hagree => exact ⟨_, (hiff _).2 ⟨r, hmem, hfound'⟩, hagree⟩

/-! ### Imports of other spellings -/

theorem lists_of_importsAs {e : Edge} (h : ((ofDisk d f maxDepth?).collect entry).outcome = .ok g)
    (he : e ∈ g.edges) (hpath : d.SameFile e.parent a.path)
    (hr : ∀ candidate ∈ Reference.candidates r, d.AgreeAt
      ((Asset.ofPath e.parent).sourceDirectory,
        placeIn (Asset.ofPath e.parent).sourceDirectory candidate)
      (a.sourceDirectory, placeIn a.sourceDirectory candidate))
    (hb : (ofDisk d f maxDepth?).ImportsAs a r b) : g.Lists d b.path := by
  obtain ⟨imported, himports, -, -, hlists⟩ := exists_imports_of_mem_edges h he
  rw [← Asset.path_ofPath e.parent] at hpath
  obtain ⟨b', hb', hagree⟩ := exists_importsAs_agree rfl hpath hr himports hb
  obtain ⟨p, hp, l, hl, hpl⟩ := hlists b' hb'
  exact ⟨p, hp, l, hagree l hl, hpl⟩

/-- What an asset imports is listed if its file was read from its directory. -/
theorem lists_of_readsFrom (h : ((ofDisk d f maxDepth?).collect entry).outcome = .ok g)
    (hread : g.ReadsFrom d a) (ha : (ofDisk d f maxDepth?).Imports a imported) :
    ∀ b ∈ imported, g.Lists d b.path := by
  intro b hb
  obtain ⟨e, he, hpath, hdirectory⟩ := hread
  obtain ⟨r, hr⟩ := (mem_iff_importsAs ha).1 hb
  exact lists_of_importsAs h he hpath (fun _ _ => agreeAt_placeIn hdirectory _) hr

/-- Every import of an edge is listed under some spelling.  What it imports in turn is listed as
    well, if the spelling that is listed lies in its own directory or if the import is found in
    neither directory, but in a load path. -/
theorem lists_imports_of_child (h : ((ofDisk d f none).collect entry).outcome = .ok g) :
    ∀ e ∈ g.edges, ∀ c ∈ e.children, ∃ p ∈ g.rerunPaths, d.SameFile p c.path ∧
      ∀ imported, (ofDisk d f none).Imports (.ofPath c.path) imported → ∀ b ∈ imported,
        (d.SameFile (Asset.ofPath p).sourceDirectory (Asset.ofPath c.path).sourceDirectory ∨
          ∃ r, (ofDisk d f none).ImportsAs (.ofPath c.path) r b ∧
            d.Lacks (Asset.ofPath p).sourceDirectory r ∧
            d.Lacks (Asset.ofPath c.path).sourceDirectory r) →
        g.Lists d b.path := by
  intro e he c hc
  obtain ⟨imported, -, -, heq, hlists⟩ := exists_imports_of_mem_edges h he
  rw [heq] at hc
  obtain ⟨a, ha, rfl⟩ := List.mem_map.1 hc
  obtain ⟨p, hp, hsame⟩ := hlists a ha
  refine ⟨p, hp, hsame.symm, fun imported himports b hb hcase => ?_⟩
  -- without a bound every listed file has an edge
  rw [← map_parent_eq_rerunPaths rfl h] at hp
  obtain ⟨e', he', rfl⟩ := List.mem_map.1 hp
  have hpath : d.SameFile e'.parent (Asset.ofPath (Dependency.ofAsset a).path).path := by
    rw [Asset.path_ofPath]
    exact hsame.symm
  rcases hcase with hdirectory | ⟨r, hr, hlacks', hlacks⟩
  · exact lists_of_readsFrom h ⟨e', he', hpath, hdirectory⟩ himports b hb
  · refine lists_of_importsAs h he' hpath (fun candidate hcandidate => ?_) hr
    exact agreeAt_of_absent (hlacks' candidate hcandidate) (hlacks candidate hcandidate)

set_option maxRecDepth 10000 in
theorem lists_imports_of_linked_child :
    ((linkedSurvey none).collect (.ofString "m.scss")).outcome = .ok linkedGraph ∧
      ∃ e ∈ linkedGraph.edges, .ofAsset (foundIn "." "a/z.scss") ∈ e.children ∧
        (linkedSurvey none).Imports (.ofPath (foundIn "." "a/z.scss").path) [foundIn "./a" "y.scss"] ∧
        linkedGraph.Lists linkedDisk (foundIn "./a" "y.scss").path := by
  have himports : (linkedSurvey none).Imports (.ofPath (foundIn "." "a/z.scss").path)
      [foundIn "./a" "y.scss"] := by
    decide +kernel
  have hdirectory : ∀ p ∈ linkedGraph.rerunPaths,
      linkedDisk.SameFile p (foundIn "." "a/z.scss").path →
        linkedDisk.SameFile (Asset.ofPath p).sourceDirectory
          (Asset.ofPath (foundIn "." "a/z.scss").path).sourceDirectory := by
    decide +kernel
  have he : linkedGraph.edges.head (by decide) ∈ linkedGraph.edges := List.head_mem _
  have hc : .ofAsset (foundIn "." "a/z.scss") ∈ (linkedGraph.edges.head (by decide)).children := by
    decide +kernel
  refine ⟨collect_linked fun _ _ => rfl, _, he, hc, himports, ?_⟩
  obtain ⟨p, hp, hsame, hlists⟩ := lists_imports_of_child (collect_linked fun _ _ => rfl) _ he _ hc
  exact hlists _ himports _ (by simp) (Or.inl (hdirectory p hp hsame))

set_option maxRecDepth 10000 in
theorem linkedGraph_loses_import :
    ((linkedSurvey none).collect (.ofString "m.scss")).outcome = .ok linkedGraph ∧
      ∃ e ∈ linkedGraph.edges, .ofAsset (foundIn "." "b/x.scss") ∈ e.children ∧
        (linkedSurvey none).Imports (.ofPath (foundIn "." "b/x.scss").path) [foundIn "./b" "y.scss"] ∧
        ¬linkedGraph.Lists linkedDisk (foundIn "./b" "y.scss").path := by
  refine ⟨collect_linked fun _ _ => rfl, ?_⟩
  decide +kernel

end Survey
end SassImports
