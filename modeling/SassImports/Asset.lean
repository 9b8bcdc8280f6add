/-
  SassImports/Asset.lean
  ======================
  Assets: stylesheet files as import resolution finds them. An asset remembers the directory it was
  found in (`root`), its path below that directory and the filters it needs, each named once.
-/
import SassImports.Filter

namespace SassImports

/-- A stylesheet file found below a directory. -/
structure Asset where
  /-- The directory that was searched. -/
  root : Path
  /-- The path below that directory. -/
  sourcePath : Path
  /-- The filters that must process the file, in the order of their registration. -/
  filters : List FilterId
  nodup : filters.Nodup
  deriving DecidableEq, Repr

namespace Asset

/-! ### Building assets -/

def ofPaths (root sourcePath : Path) : Asset := ⟨root, sourcePath, [], .nil⟩

/-- The asset for a file found in a directory: its source path is what comes below the directory,
    or the file's path as it is where the directory is not its beginning. -/
def ofFile (file directory : Path) : Asset :=
  .ofPaths directory ((file.relativeTo? directory).getD file)

/-- The asset with a filter registered, unless it is already. -/
def ensureFilter (a : Asset) (id : FilterId) : Asset :=
  if h : id ∈ a.filters then a
  else
    { a with
      filters := a.filters ++ [id]
      nodup := List.nodup_append.2 ⟨a.nodup, by simp, by
        intro x hx y hy hxy
        obtain rfl := List.mem_singleton.1 hy
        exact h (hxy ▸ hx)⟩ }

theorem filters_ensureFilter (a : Asset) (id : FilterId) :
    (a.ensureFilter id).filters = if id ∈ a.filters then a.filters else a.filters ++ [id] := by
  unfold ensureFilter
  split <;> rfl

/-! ### Where an asset is -/

def path (a : Asset) : Path := a.root.join a.sourcePath

/-- The directory of the file, which is searched first for its own imports. A bare file name lies in
    the current directory, written as a dot. -/
def sourceDirectory (a : Asset) : Path :=
  match a.path.parent? with
  | some ⟨[]⟩ => ⟨['.']⟩
  | some parent => parent
  | none => ⟨['.']⟩

theorem text_sourceDirectory_ne_nil (a : Asset) : a.sourceDirectory.text ≠ [] := by
  unfold sourceDirectory
  split
  · simp
  · next parent hne _ =>
    intro h
    cases parent
    exact hne (by simpa using h)
  · simp

/-- Whether two assets agree, their paths by components. -/
def same (a b : Asset) : Bool :=
  a.root.same b.root && a.sourcePath.same b.sourcePath && a.filters = b.filters

end Asset
end SassImports
