/-
  SassImports/Config.lean
  =======================
  The configuration of a project: its load paths and how deep imports are followed. Without a file
  for it there are no load paths and no bound.
-/
import SassImports.IoError
import SassImports.Json
import SassImports.Path

namespace SassImports

/-! ### Configurations -/

structure Config where
  /-- The load paths, best first. -/
  loadPaths : List Path
  /-- How many levels of imports are followed; all of them if there is no bound. -/
  maxDepth? : Option UInt64
  deriving DecidableEq, Repr, Inhabited

namespace Config

def empty : Config := ⟨[], none⟩

def loadPathsKey : Text := "load_paths".toList

def maxDepthKey : Text := "max_depth".toList

def toJson (c : Config) : Json :=
  .object [
    (loadPathsKey, .array (c.loadPaths.map fun p => .text p.text)),
    (maxDepthKey, match c.maxDepth? with
      | some n => .number n.toNat
      | none => .null)]

/-- The configuration with its relative load paths put below a directory. -/
def anchor (c : Config) (directory : Path) : Config :=
  { c with loadPaths := c.loadPaths.map directory.join }

end Config

/-! ### Failures -/

/-- Why a configuration file could not be loaded. -/
inductive ConfigError.Cause where
  | unreadable (error : IoError)
  | json (fault : Json.Fault)
  | yaml
  deriving DecidableEq, Repr

structure ConfigError where
  path : Path
  cause : ConfigError.Cause
  deriving DecidableEq, Repr

/-- The text of the failure. Of a file that does not parse it names no more than the path. -/
def ConfigError.message (e : ConfigError) : Text :=
  match e.cause with
  | .unreadable error => "failed to read ".toList ++ e.path.text ++ ": ".toList ++ error.message
  | .json _ | .yaml => "failed to parse ".toList ++ e.path.text

end SassImports
