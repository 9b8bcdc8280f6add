/-
  SassImports/LoadPath.lean
  =========================
  Directories to search. `LoadPaths` are configured once and hold for every stylesheet; a
  `SearchPath` is what one stylesheet's imports are looked for in: the stylesheet's own directory,
  if it has one, and then the load paths.
-/
import SassImports.Path

namespace SassImports

/-! ### Load paths -/

/-- The configured directories, best first. -/
structure LoadPaths where
  paths : List Path
  deriving DecidableEq, Repr, Inhabited

namespace LoadPaths

def empty : LoadPaths := ⟨[]⟩

def push (l : LoadPaths) (p : Path) : LoadPaths := ⟨l.paths ++ [p]⟩

def size (l : LoadPaths) : Nat := l.paths.length

def isEmpty (l : LoadPaths) : Bool := l.paths.isEmpty

/-- Whether the directories are the same one by one, by their components. -/
def same (l m : LoadPaths) : Bool := l.paths.map Path.components = m.paths.map Path.components

end LoadPaths

/-! ### Search paths -/

/-- The directories searched for the imports of one stylesheet, best first. -/
structure SearchPath where
  directories : List Path
  deriving DecidableEq, Repr, Inhabited

namespace SearchPath

/-- The leading directory, unless it is missing or its text is empty, and then the load paths. -/
def ofLoadPaths (leading? : Option Path) (l : LoadPaths) : SearchPath :=
  ⟨(leading?.filter (!·.text.isEmpty)).toList ++ l.paths⟩

def size (s : SearchPath) : Nat := s.directories.length

def isEmpty (s : SearchPath) : Bool := s.directories.isEmpty

end SearchPath
end SassImports
