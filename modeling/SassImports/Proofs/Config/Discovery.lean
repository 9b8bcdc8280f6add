/-
  SassImports/Proofs/Config/Discovery.lean
  ========================================
  The configuration of a directory is that of the first of its candidates that loads, whatever the
  others hold.

    * `firstLoadable_of_loads` and `firstLoadable_of_not_loads`: one candidate, and from them
      `firstLoadable_cases`: the first one that loads, and the warnings about those before it;
    * `exists_written_of_loads`: what is loaded from a candidate is what is written there, with its
      load paths below the directory;
    * `discover_remove`: a candidate that does not load can be removed, and the configuration stays,
      if those that load under another name of the same file still lead to a file.
-/
import Mathlib
import SassImports.Config.Load
import SassImports.Proofs.Disk.Removal

namespace SassImports.Config

variable {d d' : Disk} {directory p q : Path} {c : Config} {e : ConfigError} {ps : List Path}

/-! ### Candidates -/

/-- The configuration files that a directory may have, best first. -/
def candidates (directory : Path) : List Path := fileNames.map fun name => directory.join ⟨name⟩

theorem isName_of_mem_fileNames {name : Text} (h : name ∈ fileNames) : Path.IsName name := by
  simp only [fileNames, List.mem_cons, List.not_mem_nil, or_false] at h
  rcases h with rfl | rfl | rfl <;> exact ⟨rfl, by decide⟩

theorem exists_name_of_mem (hp : p ∈ candidates directory) :
    ∃ name, Path.IsName name ∧ p = directory.join ⟨name⟩ := by
  obtain ⟨name, hname, rfl⟩ := List.mem_map.1 hp
  exact ⟨name, isName_of_mem_fileNames hname, rfl⟩

theorem isYaml_join (directory : Path) {name : Text} (h : Path.IsName name) :
    isYaml (directory.join ⟨name⟩) = isYaml ⟨name⟩ := by
  have hname : (Path.mk name).fileName? = some name := by
    rw [Path.fileName?, Path.components_of_isName h]
    rfl
  rw [isYaml, isYaml, Path.extension?, Path.extension?, Path.fileName?_join directory h, hname]

/-- The first candidate is read as JSON, the other ones as YAML. -/
theorem map_isYaml_candidates (directory : Path) :
    (candidates directory).map isYaml = [false, true, true] := by
  have hnames : (candidates directory).map isYaml = fileNames.map fun name => isYaml ⟨name⟩ := by
    rw [candidates, List.map_map]
    exact List.map_congr_left fun name h => isYaml_join directory (isName_of_mem_fileNames h)
  rw [hnames]
  decide

/-! ### One candidate -/

def Loads (d : Disk) (p : Path) (c : Config) : Prop := d.isFile p = true ∧ load d p = .ok c

/-- The path stands for a load path that is written as `q` in a configuration of the directory. -/
def Anchored (directory q anchored : Path) : Prop :=
  anchored.same (directory.join q) = true ∧ (q.isAbsolute = true → anchored = q)

theorem exists_text_of_loads (h : Loads d p c) :
    ∃ text written, d.read p = .ok text ∧ parse p text = .ok written ∧
      c = match p.parent? with
        | some directory => written.anchor directory
        | none => written := by
  obtain ⟨hfile, hload⟩ := h
  obtain ⟨content, hfind⟩ := Disk.isFile_iff.1 hfile
  unfold load at hload
  split at hload
  · next hread =>
    -- a file that is there is found
    rw [Disk.read, hfind] at hread
    cases content <;> cases hread
  · cases hload
  · next text hread =>
    split at hload
    · cases hload
    · next written hwritten => exact ⟨text, written, hread, hwritten, (Except.ok.inj hload).symm⟩

/-- What is loaded from a candidate is written there, the load paths taken from the directory. -/
theorem exists_written_of_loads (hp : p ∈ candidates directory) (h : Loads d p c) :
    ∃ text written, d.read p = .ok text ∧ parse p text = .ok written ∧
      c.maxDepth? = written.maxDepth? ∧
      List.Forall₂ (Anchored directory) written.loadPaths c.loadPaths := by
  obtain ⟨name, hname, rfl⟩ := exists_name_of_mem hp
  obtain ⟨base, hbase, hcomponents⟩ := Path.exists_parent?_join directory hname
  obtain ⟨text, written, hread, hwritten, rfl⟩ := exists_text_of_loads h
  rw [hbase]
  refine ⟨text, written, hread, hwritten, rfl, ?_⟩
  show List.Forall₂ _ written.loadPaths (written.loadPaths.map base.join)
  rw [List.forall₂_map_right_iff]
  refine List.forall₂_same.2 fun q _ => ⟨?_, fun hq => Path.join_of_absolute hq⟩
  simpa [Path.same] using Path.components_join_congr hcomponents q

/-! ### The first candidate that loads -/

def warnings (d : Disk) (ps : List Path) : List Notice :=
  ps.filterMap fun p =>
    if d.isFile p then
      match load d p with
      | .ok _ => none
      | .error e => some (.ignoredConfig e)
    else none

theorem firstLoadable_of_loads (h : Loads d p c) (ps : List Path) :
    firstLoadable d (p :: ps) = (c, []) := by
  rw [firstLoadable, if_pos h.1, h.2]

theorem firstLoadable_of_not_loads (h : ∀ c, ¬Loads d p c) (ps : List Path) :
    firstLoadable d (p :: ps) =
      ((firstLoadable d ps).1, warnings d [p] ++ (firstLoadable d ps).2) := by
  rw [firstLoadable]
  by_cases hfile : d.isFile p = true
  · cases hload : load d p with
    | ok c => exact absurd ⟨hfile, hload⟩ (h c)
    | error e => simp [warnings, hfile, hload]
  · simp [warnings, hfile]

theorem firstLoadable_cases (d : Disk) (ps : List Path) :
    (∃ before p after c, ps = before ++ p :: after ∧ (∀ q ∈ before, ∀ c, ¬Loads d q c) ∧
      Loads d p c ∧ firstLoadable d ps = (c, warnings d before)) ∨
    ((∀ q ∈ ps, ∀ c, ¬Loads d q c) ∧ firstLoadable d ps = (.empty, warnings d ps)) := by
  induction ps with
  | nil => exact .inr ⟨by simp, rfl⟩
  | cons p ps ih =>
    by_cases hp : ∃ c, Loads d p c
    · obtain ⟨c, hc⟩ := hp
      exact .inl ⟨[], p, ps, c, rfl, by simp, hc, firstLoadable_of_loads hc ps⟩
    · rw [not_exists] at hp
      have hwarnings : ∀ qs, warnings d (p :: qs) = warnings d [p] ++ warnings d qs :=
        fun qs => List.filterMap_append (l := [p])
      rw [firstLoadable_of_not_loads hp ps]
      rcases ih with ⟨before, q, after, c, rfl, hbefore, hq, hfirst⟩ | ⟨hall, hfirst⟩
      · refine .inl ⟨p :: before, q, after, c, rfl, ?_, hq, ?_⟩
        · exact List.forall_mem_cons.2 ⟨hp, hbefore⟩
        · rw [hfirst, hwarnings before]
      · exact .inr ⟨List.forall_mem_cons.2 ⟨hp, hall⟩, by rw [hfirst, hwarnings ps]⟩

/-- Which configuration is found depends only on what loads. -/
theorem firstLoadable_congr (h : ∀ p ∈ ps, ∀ c, Loads d p c ↔ Loads d' p c) :
    (firstLoadable d ps).1 = (firstLoadable d' ps).1 := by
  induction ps with
  | nil => rfl
  | cons p ps ih =>
    obtain ⟨hp, hps⟩ := List.forall_mem_cons.1 h
    by_cases hloads : ∃ c, Loads d p c
    · obtain ⟨c, hc⟩ := hloads
      rw [firstLoadable_of_loads hc, firstLoadable_of_loads ((hp c).1 hc)]
    · rw [not_exists] at hloads
      rw [firstLoadable_of_not_loads hloads,
        firstLoadable_of_not_loads fun c hc => hloads c ((hp c).2 hc)]
      exact ih hps

/-! ### Removing a candidate -/

theorem loads_congr (h : d.find p = d'.find p) : Loads d p c ↔ Loads d' p c := by
  rw [Loads, Loads, Disk.isFile, Disk.isFile, load, load, Disk.read, Disk.read, h]

/-- Without a candidate that does not load the configuration is the same, if the other names of its
    file under which it loads still lead to a file. -/
theorem discover_remove (htree : d.IsTree) (hp : p ∈ candidates directory)
    (hfile : d.isFile p = true) (hfail : load d p = .error e) :
    ∃ d', d.remove p = some d' ∧ d'.IsTree ∧
      ((∀ q ∈ candidates directory, ∀ c, Loads d q c → d.Coincide p q → d'.isFile q = true) →
        (discover d' directory).1 = (discover d directory).1) := by
  obtain ⟨name, hname, rfl⟩ := exists_name_of_mem hp
  obtain ⟨before, hpieces⟩ := directory.exists_pieces_join hname
  obtain ⟨d', hremove, htree', hwithin, hkeeps⟩ :=
    Disk.exists_remove_of_isFile htree hname hpieces hfile
  refine ⟨d', hremove, htree', fun hothers => firstLoadable_congr fun q hq c => ?_⟩
  -- what is a file afterwards was the same file before
  have hfind : d'.isFile q = true → d'.find q = d.find q := by
    intro hq'
    obtain ⟨content, hfind⟩ := Disk.isFile_iff.1 hq'
    rw [hfind, hwithin.find hfind]
  constructor
  · intro hloads
    exact (loads_congr (hfind hloads.1)).1 hloads
  · intro hloads
    have hstays : d'.isFile q = true := by
      by_cases hsame : d.Coincide (directory.join ⟨name⟩) q
      · exact hothers q hq c hloads hsame
      · exact hkeeps q hloads.1 hsame
    exact (loads_congr (hfind hstays)).2 hloads

/-- **Discovery takes the first candidate that loads.**  Its configuration is the answer, and that
    of no file if there is none, with a warning about every file before it and no other one.  Only
    the first candidate is JSON.  What is loaded is what is written in the file, the load paths taken
    from the directory.  And in a file tree a candidate that does not load can be removed, and the
    answer stays, if the candidates that lead to the same file and load still lead to a file. -/
theorem discovery_takes_first_loadable :
    (∀ (d : Disk) (directory : Path),
      (∃ before p after c, candidates directory = before ++ p :: after ∧
        (∀ q ∈ before, ∀ c, ¬Loads d q c) ∧ Loads d p c ∧
        discover d directory = (c, warnings d before)) ∨
      ((∀ q ∈ candidates directory, ∀ c, ¬Loads d q c) ∧
        discover d directory = (.empty, warnings d (candidates directory)))) ∧
    (∀ directory, (candidates directory).map isYaml = [false, true, true]) ∧
    (∀ (d : Disk) (directory p : Path) (c : Config), p ∈ candidates directory → Loads d p c →
      ∃ text written, d.read p = .ok text ∧ parse p text = .ok written ∧
        c.maxDepth? = written.maxDepth? ∧
        List.Forall₂ (Anchored directory) written.loadPaths c.loadPaths) ∧
    ∀ (d : Disk) (directory p : Path) (e : ConfigError), d.IsTree → p ∈ candidates directory →
      d.isFile p = true → load d p = .error e →
      ∃ d', d.remove p = some d' ∧ d'.IsTree ∧
        ((∀ q ∈ candidates directory, ∀ c, Loads d q c → d.Coincide p q → d'.isFile q = true) →
          (discover d' directory).1 = (discover d directory).1) :=
  ⟨fun d directory => firstLoadable_cases d (candidates directory), map_isYaml_candidates,
    fun _ _ _ _ hp hloads => exists_written_of_loads hp hloads,
    fun _ _ _ _ htree hp hfile hfail => discover_remove htree hp hfile hfail⟩

/-! ### Two names of one file -/

/-- What is no JSON, but YAML. -/
def settings : Text := "load_paths: [lib, /abs]\n".toList

/-- What a directory `cfg` is told by the settings in it. -/
def settled : Config := ⟨[.ofString "cfg/lib", .ofString "/abs"], none⟩

def firstPath : Path := .ofString "cfg/sass-deps.json"

def secondPath : Path := .ofString "cfg/sass-deps.yaml"

theorem load_first (h : d.read firstPath = .ok settings) :
    load d firstPath = .error ⟨firstPath, .json .notJson⟩ := by
  have hparse : parse firstPath settings = .error (.json .notJson) := by
    cbv
  simp only [load, h, hparse]

theorem load_second (h : d.read secondPath = .ok settings) : load d secondPath = .ok settled := by
  have hparse : parse secondPath settings = .ok ⟨[.ofString "lib", .ofString "/abs"], none⟩ := by
    cbv
  have hparent : secondPath.parent? = some (.ofString "cfg") := by
    decide
  simp only [load, h, hparse, hparent]
  decide

/-- The first two candidates are links to one file. -/
def aliasedDisk : Disk where
  entries :=
    [(["cfg".toList], .directory), (["settings".toList, "cfg".toList], .file (.text settings)),
      (["sass-deps.json".toList, "cfg".toList], .link "settings".toList),
      (["sass-deps.yaml".toList, "cfg".toList], .link "settings".toList)]
  workingDirectory := []

/-- The second candidate is a link to the first one. -/
def sharedDisk : Disk where
  entries :=
    [(["cfg".toList], .directory),
      (["sass-deps.json".toList, "cfg".toList], .file (.text settings)),
      (["sass-deps.yaml".toList, "cfg".toList], .link "sass-deps.json".toList)]
  workingDirectory := []

theorem discovery_takes_first_loadable_aliased :
    secondPath ∈ candidates (.ofString "cfg") ∧ Loads aliasedDisk secondPath settled ∧
    (∃ text written, aliasedDisk.read secondPath = .ok text ∧
      parse secondPath text = .ok written ∧ written.maxDepth? = none ∧
      List.Forall₂ (Anchored (.ofString "cfg")) written.loadPaths settled.loadPaths) ∧
    aliasedDisk.IsTree ∧ firstPath ∈ candidates (.ofString "cfg") ∧
    aliasedDisk.isFile firstPath = true ∧
    load aliasedDisk firstPath = .error ⟨firstPath, .json .notJson⟩ ∧
    aliasedDisk.Coincide firstPath secondPath ∧
    ∃ d', aliasedDisk.remove firstPath = some d' ∧ d'.IsTree ∧
      (discover d' (.ofString "cfg")).1 = (discover aliasedDisk (.ofString "cfg")).1 := by
  have hsecond : secondPath ∈ candidates (.ofString "cfg") := by
    decide
  have hloads : Loads aliasedDisk secondPath settled :=
    ⟨by decide +kernel, load_second (by decide +kernel)⟩
  have htree : aliasedDisk.IsTree := by
    decide
  have hfirst : firstPath ∈ candidates (.ofString "cfg") := by
    decide
  have hfile : aliasedDisk.isFile firstPath = true := by
    decide +kernel
  have hfail : load aliasedDisk firstPath = .error ⟨firstPath, .json .notJson⟩ :=
    load_first (by decide +kernel)
  have hsame : aliasedDisk.Coincide firstPath secondPath := by
    decide +kernel
  have hrest : aliasedDisk.remove firstPath =
      some ⟨[(["cfg".toList], .directory),
        (["settings".toList, "cfg".toList], .file (.text settings)),
        (["sass-deps.yaml".toList, "cfg".toList], .link "settings".toList)], []⟩ := by
    decide +kernel
  obtain ⟨-, -, hwritten, hremove⟩ := discovery_takes_first_loadable
  obtain ⟨text, written, hread, hparse, hdepth, hpaths⟩ := hwritten _ _ _ _ hsecond hloads
  obtain ⟨d', hd', htree', hstays⟩ := hremove _ _ _ _ htree hfirst hfile hfail
  have hkept : ∀ q ∈ candidates (.ofString "cfg"), q ≠ firstPath →
      aliasedDisk.isFile q = true → d'.isFile q = true := by
    obtain rfl := Option.some.inj (hrest.symm.trans hd')
    decide +kernel
  refine ⟨hsecond, hloads, ⟨text, written, hread, hparse, hdepth.symm, hpaths⟩, htree, hfirst,
    hfile, hfail, hsame, d', hd', htree', hstays fun q hq c hq' _ => ?_⟩
  refine hkept q hq ?_ hq'.1
  rintro rfl
  cases hfail.symm.trans hq'.2

/-- The first candidate does not load, and without it there is nothing behind the second one, which
    did load. -/
theorem removing_link_target_changes_discovery :
    sharedDisk.IsTree ∧ firstPath ∈ candidates (.ofString "cfg") ∧
    sharedDisk.isFile firstPath = true ∧
    load sharedDisk firstPath = .error ⟨firstPath, .json .notJson⟩ ∧
    ∃ d', sharedDisk.remove firstPath = some d' ∧
      (discover d' (.ofString "cfg")).1 ≠ (discover sharedDisk (.ofString "cfg")).1 := by
  have hfail : load sharedDisk firstPath = .error ⟨firstPath, .json .notJson⟩ :=
    load_first (by decide +kernel)
  have hloads : Loads sharedDisk secondPath settled :=
    ⟨by decide +kernel, load_second (by decide +kernel)⟩
  have hbefore : (discover sharedDisk (.ofString "cfg")).1 = settled := by
    have hskips : ∀ c, ¬Loads sharedDisk firstPath c := by
      rintro c ⟨-, hload⟩
      cases hfail.symm.trans hload
    show (firstLoadable sharedDisk [firstPath, secondPath, _]).1 = settled
    rw [firstLoadable_of_not_loads hskips, firstLoadable_of_loads hloads]
  have hrest : sharedDisk.remove firstPath =
      some ⟨[(["cfg".toList], .directory),
        (["sass-deps.yaml".toList, "cfg".toList], .link "sass-deps.json".toList)], []⟩ := by
    decide +kernel
  refine ⟨by decide, by decide, by decide +kernel, hfail, _, hrest, ?_⟩
  rw [hbefore]
  decide +kernel

end SassImports.Config
