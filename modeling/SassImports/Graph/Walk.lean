/-
  SassImports/Graph/Walk.lean
  ===========================
  The walk over everything that an entry stylesheet imports, depth first. Stylesheets are told apart
  by their canonical locations, so import cycles end and a file that is reached under several
  spellings is read once.

  `explore` keeps the assets that are still to be visited, each with its distance from the entry. An
  asset at a location seen before is dropped; any other is listed, and unless the bound on the depth is
  reached it is read, and its imports are visited before the rest. Every step either makes the list
  shorter or marks one more of the disk's finitely many locations as seen.
-/
import SassImports.Graph
import SassImports.Resolve

namespace SassImports

structure Survey where
  disk : Disk
  context : Context
  filter : Filter
  /-- How many levels of imports are followed, if not all. -/
  maxDepth? : Option Nat

/-- A walk that asks the disk itself which files exist. -/
def Survey.ofDisk (disk : Disk) (filter : Filter) (maxDepth? : Option Nat) : Survey :=
  ⟨disk, .ofDisk disk, filter, maxDepth?⟩

/-- What a walk finds: the imports of every stylesheet that it read, and all files that it reached,
    the first one included. -/
structure Findings where
  edges : List Edge
  reached : List Path
  deriving DecidableEq, Repr

namespace Findings

def none : Findings := ⟨[], []⟩

def reach (file : Path) (f : Findings) : Findings := { f with reached := file :: f.reached }

def connect (e : Edge) (f : Findings) : Findings := { f with edges := e :: f.edges }

end Findings

namespace Survey

/-- Whether stylesheets so many imports away from the entry are left unread. -/
def stopsAt (s : Survey) (depth : Nat) : Bool := s.maxDepth?.any (· ≤ depth)

def readSource (s : Survey) (file : Path) (depth : Nat) : Traced Text := do
  Traced.emit (.read file depth)
  Traced.ofExcept (Failure.read file) (s.disk.read file)

/-- The assets that a stylesheet imports, which are looked for in its own directory first. -/
def children (s : Survey) (asset : Asset) (depth : Nat) : Traced (List Asset) := do
  let source ← s.readSource asset.path depth
  resolveChildren s.context s.filter source (some asset.sourceDirectory)

/-! ### Termination -/

def unseen (s : Survey) (seen : List Location) : List Location :=
  s.disk.locations.filter (· ∉ seen)

theorem length_unseen_cons {s : Survey} {seen : List Location} {l : Location}
    (hl : l ∈ s.disk.locations) (hs : l ∉ seen) :
    (s.unseen (l :: seen)).length < (s.unseen seen).length := by
  have h : s.unseen (l :: seen) = (s.unseen seen).filter (· ≠ l) := by
    simp only [unseen, List.filter_filter]
    congr 1
    funext x
    simp [List.mem_cons, not_or, Bool.decide_and]
  rw [h]
  refine Nat.lt_of_le_of_ne (List.length_filter_le _ _) fun he => ?_
  have hmem : l ∈ s.unseen seen := List.mem_filter.2 ⟨hl, by simpa using hs⟩
  have := List.length_filter_eq_length_iff.1 he l hmem
  simp at this

/-! ### The walk -/

/-- Visits the assets in order, and what each imports before the next one. -/
def explore (s : Survey) (seen : List Location) : List (Asset × Nat) → Traced Findings
  | [] => return .none
  | (asset, depth) :: rest =>
    match _ : s.disk.canonicalize asset.path with
    | .error e => .fail (.canonicalize asset.path e)
    | .ok l =>
      if _ : l ∈ seen then s.explore seen rest
      else
        if s.stopsAt depth then do
          let found ← s.explore (l :: seen) rest
          return found.reach asset.path
        else do
          let assets ← s.children asset depth
          let found ← s.explore (l :: seen) (assets.map (·, depth + 1) ++ rest)
          return (found.connect (.ofAssets asset.path assets)).reach asset.path
termination_by agenda => ((s.unseen seen).length, agenda.length)
decreasing_by
  · exact .right _ (Nat.lt_succ_self _)
  · exact .left _ _ (length_unseen_cons (Disk.mem_locations_of_canonicalize ‹_›) ‹_›)
  · exact .left _ _ (length_unseen_cons (Disk.mem_locations_of_canonicalize ‹_›) ‹_›)

/-! Its equations, one for each fate of the first asset. -/

variable {s : Survey} {seen : List Location} {asset : Asset} {depth : Nat}
  {rest : List (Asset × Nat)} {l : Location}

theorem explore_nil : s.explore seen [] = pure .none := by
  rw [explore]

theorem explore_of_error {e : IoError} (h : s.disk.canonicalize asset.path = .error e) :
    s.explore seen ((asset, depth) :: rest) = .fail (.canonicalize asset.path e) := by
  rw [explore]
  split
  · next e' h' => rw [h] at h'; cases h'; rfl
  · next h' => rw [h] at h'; cases h'

theorem explore_of_seen (h : s.disk.canonicalize asset.path = .ok l) (hs : l ∈ seen) :
    s.explore seen ((asset, depth) :: rest) = s.explore seen rest := by
  rw [explore]
  split
  · next h' => rw [h] at h'; cases h'
  · next h' => rw [h] at h'; cases h'; rw [dif_pos hs]

theorem explore_of_stops (h : s.disk.canonicalize asset.path = .ok l) (hs : l ∉ seen)
    (hd : s.stopsAt depth = true) :
    s.explore seen ((asset, depth) :: rest) =
      (do
        let found ← s.explore (l :: seen) rest
        return found.reach asset.path) := by
  rw [explore]
  split
  · next h' => rw [h] at h'; cases h'
  · next h' => rw [h] at h'; cases h'; rw [dif_neg hs, if_pos hd]

theorem explore_of_reads (h : s.disk.canonicalize asset.path = .ok l) (hs : l ∉ seen)
    (hd : s.stopsAt depth = false) :
    s.explore seen ((asset, depth) :: rest) =
      (do
        let assets ← s.children asset depth
        let found ← s.explore (l :: seen) (assets.map (·, depth + 1) ++ rest)
        return (found.connect (.ofAssets asset.path assets)).reach asset.path) := by
  rw [explore]
  split
  · next h' => rw [h] at h'; cases h'
  · next h' => rw [h] at h'; cases h'; rw [dif_neg hs, if_neg (by simp [hd])]

/-! ### The graph of an entry -/

/-- The graph of everything that the entry imports. A walk that fails makes no final report. -/
def collect (s : Survey) (entry : Path) : Traced Graph := do
  let found ← s.explore [] [(.ofPaths ⟨[]⟩ entry, 0)]
  let files := found.reached.tail
  Traced.emit (.noticed (.collectedDependencies entry files.length))
  return ⟨entry, found.edges, files⟩

end Survey
end SassImports
