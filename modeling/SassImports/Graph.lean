/-
  SassImports/Graph.lean
  ======================
  The import graph of an entry stylesheet: which stylesheet imports which files, and every file once.
  Its JSON form has the fields in the order of the structures below.
-/
import SassImports.Asset
import SassImports.Json

namespace SassImports

/-! ### Graphs -/

/-- An import that was resolved to a file. -/
structure Dependency where
  path : Path
  /-- The directory in which it was found. -/
  root : Path
  /-- The filters that must process it. -/
  filters : List FilterId
  deriving DecidableEq, Repr

/-- The imports of one stylesheet, repetitions included. -/
structure Edge where
  parent : Path
  children : List Dependency
  deriving DecidableEq, Repr

structure Graph where
  entry : Path
  /-- An edge for every stylesheet that was read, depth first. -/
  edges : List Edge
  /-- Every imported file once, in order of discovery; the entry is not among them. -/
  files : List Path
  deriving DecidableEq, Repr

def Dependency.ofAsset (a : Asset) : Dependency := ⟨a.path, a.root, a.filters⟩

def Edge.ofAssets (parent : Path) (children : List Asset) : Edge :=
  ⟨parent, children.map Dependency.ofAsset⟩

namespace Graph

/-- The paths whose change makes the entry stale: itself and every imported file. -/
def rerunPaths (g : Graph) : List Path := g.entry :: g.files

end Graph

/-! ### JSON form -/

def Dependency.toJson (d : Dependency) : Json :=
  .object [
    ("path".toList, .text d.path.text),
    ("root".toList, .text d.root.text),
    ("filters".toList, .array (d.filters.map fun id => .text id.name))]

def Edge.toJson (e : Edge) : Json :=
  .object [
    ("parent".toList, .text e.parent.text),
    ("children".toList, .array (e.children.map Dependency.toJson))]

def Graph.toJson (g : Graph) : Json :=
  .object [
    ("entry".toList, .text g.entry.text),
    ("edges".toList, .array (g.edges.map Edge.toJson)),
    ("files".toList, .array (g.files.map fun p => .text p.text))]

end SassImports
