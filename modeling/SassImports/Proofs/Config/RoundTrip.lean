/-
  SassImports/Proofs/Config/RoundTrip.lean
  ========================================
  A configuration survives being written and loaded.  Its printed form is read back, whatever the
  texts of its load paths and its bound are; loading it from a file changes the relative load paths
  only, and a configuration that was loaded from an absolute path has none left.

    * `readPaths_written`, `readDepth_written` and `readFields_written` read the tokens of each part;
    * `ofJsonText_render`: reading inverts printing, under every layout with nothing but blanks;
    * `load_compact`: what loading makes of a configuration that was written to a file.
-/
import SassImports.Config.Load
import SassImports.Proofs.Json.Printing
import SassImports.Proofs.Path.Parent

namespace SassImports.Config

open Json (Fault Layout Token)

variable {d d' : Draft} {key : Text} {fault? : Option Fault} {ts rest : List Token} {l : Layout}

/-! ### Values -/

def pathsJson (ps : List Path) : Json := .array (ps.map fun p => .text p.text)

def depthJson : Option UInt64 → Json
  | some n => .number n.toNat
  | none => .null

theorem toJson_eq (c : Config) : c.toJson =
    .object [(loadPathsKey, pathsJson c.loadPaths), (maxDepthKey, depthJson c.maxDepth?)] := by
  unfold toJson depthJson
  cases c.maxDepth? <;> rfl

/-- Behind the first path the list goes on with a comma. -/
theorem readMorePaths_written (p : Path) (ps : List Path) (rest : List Token) :
    readMorePaths (.mark ',' :: (Json.writtenItems ((p :: ps).map fun p => .text p.text) ++
      .mark ']' :: rest)) = .ok (p :: ps, rest) := by
  induction ps generalizing p with
  | nil => rfl
  | cons q ps ih =>
    exact Outcome.bind_eq_ok_iff.2 ⟨p.text, rfl, Outcome.bind_eq_ok_iff.2 ⟨_, ih q, rfl⟩⟩

theorem readPaths_written (ps : List Path) (rest : List Token) :
    readPaths ((pathsJson ps).written ++ rest) = .ok (ps, rest) := by
  match ps with
  | [] => rfl
  | [p] => rfl
  | p :: q :: ps =>
    have hmore := readMorePaths_written q ps rest
    have hwritten : (pathsJson (p :: q :: ps)).written ++ rest =
        .mark '[' :: .text (.ok p.text) none :: .mark ',' ::
          (Json.writtenItems ((q :: ps).map fun p => .text p.text) ++ .mark ']' :: rest) := by
      simp [pathsJson, Json.written, Json.writtenItems]
    rw [hwritten]
    exact Outcome.bind_eq_ok_iff.2 ⟨p.text, rfl, Outcome.bind_eq_ok_iff.2 ⟨_, hmore, rfl⟩⟩

theorem readDepth_written (depth? : Option UInt64) (rest : List Token) :
    readDepth ((depthJson depth?).written ++ rest) = .ok (depth?, rest) := by
  cases depth? with
  | none => rfl
  | some n =>
    have hvalue : (Json.numeral n.toNat).value = .ok (some n.toNat) :=
      Json.value_numeral (UInt64.toNat_lt n)
    show readDepth (.number (Json.numeral n.toNat).value none :: rest) = _
    rw [hvalue]
    show Except.ok (some (UInt64.ofNat n.toNat), rest) = _
    rw [UInt64.ofNat_toNat]

/-! ### Objects -/

theorem readFields_comma (hkey : d.has key = false)
    (h : readField d key ts = .ok (d', .mark ',' :: rest)) :
    readFields d (.text (.ok key) fault? :: .mark ':' :: ts) = readFields d' rest := by
  rw [readFields, if_neg (by simp [hkey])]
  split
  · next h' => rw [h] at h'; cases h'
  · next h' => rw [h] at h'; cases h'
  · next h' => rw [h] at h'; cases h'
  · next h' => rw [h] at h'; cases h'; rfl
  · next hcomma h' => rw [h] at h'; cases h'; exact absurd rfl (hcomma _ _)

theorem readFields_close (hkey : d.has key = false)
    (h : readField d key ts = .ok (d', .mark '}' :: rest)) :
    readFields d (.text (.ok key) fault? :: .mark ':' :: ts) = .ok (d', rest) := by
  rw [readFields, if_neg (by simp [hkey])]
  split
  · next h' => rw [h] at h'; cases h'
  · next h' => rw [h] at h'; cases h'
  · next h' => rw [h] at h'; cases h'; rfl
  · next h' => rw [h] at h'; cases h'
  · next hclose _ h' => rw [h] at h'; cases h'; exact absurd rfl (hclose _ _)

/-- The two fields one after the other. -/
theorem readFields_written (c : Config) :
    readFields .empty (.text (.ok loadPathsKey) none :: .mark ':' ::
      ((pathsJson c.loadPaths).written ++ .mark ',' :: .text (.ok maxDepthKey) none :: .mark ':' ::
        ((depthJson c.maxDepth?).written ++ [.mark '}']))) =
      .ok (⟨some c.loadPaths, some c.maxDepth?⟩, []) := by
  have hpaths := readPaths_written c.loadPaths (.mark ',' :: .text (.ok maxDepthKey) none ::
    .mark ':' :: ((depthJson c.maxDepth?).written ++ [.mark '}']))
  have hdepth := readDepth_written c.maxDepth? [.mark '}']
  rw [readFields_comma rfl (by rw [readField, if_pos rfl, hpaths]; rfl)]
  exact readFields_close rfl (by rw [readField, if_neg (by decide), if_pos rfl, hdepth]; rfl)

theorem readConfig_written (c : Config) : readConfig c.toJson.written = .ok (c, []) := by
  have hwritten : c.toJson.written = .mark '{' :: .text (.ok loadPathsKey) none :: .mark ':' ::
      ((pathsJson c.loadPaths).written ++ .mark ',' :: .text (.ok maxDepthKey) none :: .mark ':' ::
        ((depthJson c.maxDepth?).written ++ [.mark '}'])) := by
    simp [toJson_eq, Json.written, Json.writtenFields]
  rw [hwritten]
  exact Outcome.map_eq_ok_iff.2 ⟨_, readFields_written c, rfl⟩

/-- **Reading inverts printing.** -/
theorem ofJsonText_render (hl : l.Loose) (c : Config) : ofJsonText (c.toJson.render l 0) = .ok c := by
  have htokens := @Json.tokens_render l hl 0 c.toJson [] (by simp [Json.EndsNumeral])
  rw [List.append_nil, Json.tokens_nil, List.append_nil] at htokens
  rw [ofJsonText, htokens]
  exact Outcome.bind_eq_ok_iff.2 ⟨_, readConfig_written c, rfl⟩

example (c : Config) : ofJsonText c.toJson.pretty = .ok c :=
  ofJsonText_render Layout.loose_pretty c

/-! ### Loading -/

section

variable {disk : Disk} {p directory : Path} {c : Config}

theorem load_of_read (hread : disk.read p = .ok c.toJson.compact) (hjson : isYaml p = false)
    (hparent : p.parent? = some directory) : load disk p = .ok (c.anchor directory) := by
  have hparse : parse p c.toJson.compact = .ok c := by
    rw [parse, hjson, if_neg Bool.false_ne_true, Json.compact, ofJsonText_render Layout.loose_compact]
  simp only [load, hread, hparse, hparent]

theorem anchor_of_absolute (h : ∀ q ∈ c.loadPaths, q.isAbsolute = true) (directory : Path) :
    c.anchor directory = c := by
  have hpaths : c.loadPaths.map directory.join = c.loadPaths := by
    rw [List.map_congr_left fun q hq => Path.join_of_absolute (h q hq), List.map_id']
  rw [anchor, hpaths]

/-- **A configuration survives being written and loaded.**  From a file that holds its printed form
    it is loaded with the same bound and with its load paths taken from the directory of the file,
    which leaves absolute ones as they are; and what is loaded from an absolute path can be written
    and loaded again, anywhere, without a change. -/
theorem load_compact (hread : disk.read p = .ok c.toJson.compact) (hjson : isYaml p = false) :
    ∃ directory, p.parent? = some directory ∧
      load disk p = .ok ⟨c.loadPaths.map directory.join, c.maxDepth?⟩ ∧
      (∀ q ∈ c.loadPaths, q.isAbsolute = true → directory.join q = q) ∧
      (p.isAbsolute = true → ∀ (disk' : Disk) (p' : Path), isYaml p' = false →
        disk'.read p' =
          .ok (Config.mk (c.loadPaths.map directory.join) c.maxDepth?).toJson.compact →
        load disk' p' = .ok ⟨c.loadPaths.map directory.join, c.maxDepth?⟩) := by
  obtain ⟨directory, hparent⟩ := Disk.exists_parent?_of_read hread
  refine ⟨directory, hparent, load_of_read hread hjson hparent,
    fun q _ hq => Path.join_of_absolute hq, ?_⟩
  intro hp disk' p' hjson' hread'
  obtain ⟨directory', hparent'⟩ := Disk.exists_parent?_of_read hread'
  have habsolute : ∀ q ∈ (Config.mk (c.loadPaths.map directory.join) c.maxDepth?).loadPaths,
      q.isAbsolute = true := by
    intro q hq
    obtain ⟨q, -, rfl⟩ := List.mem_map.1 hq
    exact Path.isAbsolute_join (Path.isAbsolute_of_parent? hp hparent) q
  rw [load_of_read hread' hjson' hparent', anchor_of_absolute habsolute]

end

/-- Load paths with a quote, a backslash, a control character and nothing at all, and the largest
    bound. -/
def awkward : Config :=
  ⟨[⟨"a\"\\\x01".toList⟩, ⟨"/b".toList⟩, ⟨[]⟩], some 18446744073709551615⟩

def awkwardLoaded : Config :=
  ⟨[⟨"/etc/a\"\\\x01".toList⟩, ⟨"/b".toList⟩, ⟨"/etc/".toList⟩], some 18446744073709551615⟩

def awkwardPath : Path := ⟨"/etc/c.json".toList⟩

def diskWith (c : Config) : Disk :=
  ⟨[(["etc".toList], .directory),
    (["c.json".toList, "etc".toList], .file (.text c.toJson.compact))], []⟩

theorem load_compact_awkward :
    (diskWith awkward).read awkwardPath = .ok awkward.toJson.compact ∧
      isYaml awkwardPath = false ∧ load (diskWith awkward) awkwardPath = .ok awkwardLoaded ∧
      (diskWith awkwardLoaded).read awkwardPath = .ok awkwardLoaded.toJson.compact ∧
      load (diskWith awkwardLoaded) awkwardPath = .ok awkwardLoaded := by
  have hread : (diskWith awkward).read awkwardPath = .ok awkward.toJson.compact := by
    decide +kernel
  have hread' : (diskWith awkwardLoaded).read awkwardPath = .ok awkwardLoaded.toJson.compact := by
    decide +kernel
  have hjson : isYaml awkwardPath = false := by
    decide +kernel
  have hparent' : awkwardPath.parent? = some ⟨"/etc".toList⟩ := by
    decide +kernel
  obtain ⟨directory, hparent, hload, -, hagain⟩ := load_compact hread hjson
  obtain rfl := Option.some.inj (hparent.symm.trans hparent')
  exact ⟨hread, hjson, hload, hread', hagain rfl (diskWith awkwardLoaded) awkwardPath hjson hread'⟩

end SassImports.Config
