/-
  SassImports/Resolve.lean
  ========================
  From an import reference to a file. The places where the file may be are the candidates of the
  reference below every directory of the search path, directory by directory; the first place where a
  file exists and has an asset wins.

    * `Context` says how existence, assets and references are found; `Context.ofDisk` is the usual one;
    * `places` lists the places, and `firstMatch` goes through them;
    * `resolveImport` answers for one reference, `resolveChildren` for all those of a source.

  Plain CSS imports, empty references and references that match nothing have no asset. Only a probe or
  a maker of assets can fail, and nothing is asked after a failure.
-/
import SassImports.Disk
import SassImports.Stylesheet.Import
import SassImports.Trace

namespace SassImports

/-! ### Contexts -/

/-- What is consulted while imports are resolved. -/
structure Context where
  probe : Path → Except IoError Bool
  /-- The assets for a file found in a directory, best first, or why there are none. -/
  assets : Path → Path → Except Text (List Asset)
  references : Text → List Reference

namespace Context

/-- Files are those of a disk, each is one asset, and references are the targets of imports. -/
def ofDisk (d : Disk) : Context where
  probe := d.exists?
  assets file directory := .ok [Asset.ofFile file directory]
  references := Stylesheet.importReferences

def askProbe (c : Context) (file : Path) : Traced Bool := do
  Traced.emit (.probed file)
  Traced.ofExcept (Failure.probe file) (c.probe file)

def askAssets (c : Context) (file directory : Path) : Traced (List Asset) := do
  Traced.emit (.created file directory)
  Traced.ofExcept (Failure.create file) (c.assets file directory)

def askReferences (c : Context) (source : Text) : Traced (List Reference) := do
  Traced.emit .extracted
  return c.references source

end Context

/-! ### Places -/

/-- The file that a candidate names in a directory. Slashes at its start would lead out of the
    directory and are dropped. -/
def placeIn (directory : Path) (candidate : Reference) : Path :=
  directory.join ⟨Text.trimStart '/' candidate⟩

/-- Every directory with every candidate in it, in order of preference. -/
def places (directories : List Path) (candidates : List Reference) : List (Path × Path) :=
  directories.flatMap fun directory =>
    candidates.map fun candidate => (directory, placeIn directory candidate)

theorem places_append (ds es : List Path) (cs : List Reference) :
    places (ds ++ es) cs = places ds cs ++ places es cs :=
  List.flatMap_append

/-- The first place, a directory and a file, at which a file exists and has an asset, and the first
    of its assets. -/
def firstMatch (c : Context) : List (Path × Path) → Traced (Option (Path × Asset))
  | [] => return none
  | (directory, file) :: rest => do
    if ← c.askProbe file then
      match ← c.askAssets file directory with
      | asset :: _ => return some (file, asset)
      | [] => firstMatch c rest
    else firstMatch c rest

/-! ### References -/

/-- The asset that an import reference stands for, tagged with the filter. -/
def resolveImport (c : Context) (id : FilterId) (s : SearchPath) (r : Reference) :
    Traced (Option Asset) := do
  if r.isEmpty then return none
  else if Reference.isPlainCss r then
    Traced.emit (.noticed (.skippedPlainCss r))
    return none
  else
    match ← firstMatch c (places s.directories (Reference.candidates r)) with
    | some (file, asset) =>
      Traced.emit (.noticed (.resolvedImport r file))
      return some (asset.ensureFilter id)
    | none =>
      Traced.emit (.noticed (.unresolvedImport r s.size))
      return none

/-- The assets that references stand for, in order; those that stand for none are left out. -/
def resolveImports (c : Context) (id : FilterId) (s : SearchPath) :
    List Reference → Traced (List Asset)
  | [] => return []
  | r :: rs => do
    let asset? ← resolveImport c id s r
    let assets ← resolveImports c id s rs
    return asset?.toList ++ assets

/-- The assets that a source imports, repetitions included. Without a directory to search the
    references are not even extracted. -/
def resolveChildren (c : Context) (f : Filter) (source : Text) (leading? : Option Path) :
    Traced (List Asset) := do
  let s := SearchPath.ofLoadPaths leading? f.loadPaths
  if s.isEmpty then return []
  else
    let references ← c.askReferences source
    resolveImports c f.id s references

end SassImports
