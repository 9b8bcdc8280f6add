/-
  SassImports/Filter.lean
  =======================
  A filter is a processing step that stylesheets go through. It has a name, with which the assets
  that need it are tagged, and the load paths that its imports are searched in.
-/
import SassImports.LoadPath

namespace SassImports

/-! ### Names of filters -/

/-- The name under which a filter is registered on an asset. -/
structure FilterId where
  /-- The name itself; any text will do. -/
  name : Text
  deriving DecidableEq, Repr, Inhabited

namespace FilterId

/-- The name of the Sass compiler's filter. -/
def sassc : FilterId := ⟨"sassc".toList⟩

/-- The order of names by code points, which is also that of their bytes in UTF-8. -/
def order (a b : FilterId) : Ordering := compare a.name b.name

end FilterId

/-! ### Filters -/

structure Filter where
  /-- The name registered on resolved imports. -/
  id : FilterId
  /-- The directories searched after a stylesheet's own. -/
  loadPaths : LoadPaths
  deriving DecidableEq, Repr, Inhabited

namespace Filter

def ofLoadPaths (l : LoadPaths) : Filter := ⟨.sassc, l⟩

def withId (f : Filter) (id : FilterId) : Filter := { f with id := id }

/-- The same filter with one more load path, searched last. -/
def pushLoadPath (f : Filter) (p : Path) : Filter := { f with loadPaths := f.loadPaths.push p }

/-- Whether name and load paths agree, the latter by their components. -/
def same (f g : Filter) : Bool := f.id = g.id && f.loadPaths.same g.loadPaths

end Filter
end SassImports
