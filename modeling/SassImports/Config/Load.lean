/-
  SassImports/Config/Load.lean
  ============================
  Loading configurations from a disk. The extension of a file tells YAML from JSON, a file that is not
  there stands for the empty configuration, and relative load paths are taken from the directory of the
  file they are written in.

    * `load` reads one file;
    * `discover` takes the first file of a directory that loads, under one of three names, and warns of
      those before it that do not.
-/
import SassImports.Config.Json
import SassImports.Config.Yaml
import SassImports.Disk
import SassImports.Trace

namespace SassImports.Config

/-! ### One file -/

def isYaml (p : Path) : Bool :=
  p.extension? = some "yaml".toList || p.extension? = some "yml".toList

/-- The configuration that the text of a file stands for, as it is written there. -/
def parse (p : Path) (text : Text) : Except ConfigError.Cause Config :=
  if isYaml p then
    match ofYamlText? text with
    | some c => .ok c
    | none => .error .yaml
  else
    match ofJsonText text with
    | .ok c => .ok c
    | .error fault => .error (.json fault)

def load (d : Disk) (p : Path) : Except ConfigError Config :=
  match d.read p with
  | .error .notFound => .ok .empty
  | .error e => .error ⟨p, .unreadable e⟩
  | .ok text =>
    match parse p text with
    | .error cause => .error ⟨p, cause⟩
    | .ok c =>
      .ok (match p.parent? with
        | some directory => c.anchor directory
        | none => c)

/-! ### The first file that loads -/

def fileNames : List Text :=
  ["sass-deps.json".toList, "sass-deps.yaml".toList, "sass-deps.yml".toList]

/-- The configuration in the first of some files that is there and loads, and the warnings about those
    before it. -/
def firstLoadable (d : Disk) : List Path → Config × List Notice
  | [] => (.empty, [])
  | p :: rest =>
    if d.isFile p then
      match load d p with
      | .ok c => (c, [])
      | .error e =>
        let (c, notices) := firstLoadable d rest
        (c, .ignoredConfig e :: notices)
    else firstLoadable d rest

/-- The configuration of a directory, and the warnings about files that were passed over. -/
def discover (d : Disk) (directory : Path) : Config × List Notice :=
  firstLoadable d (fileNames.map fun name => directory.join ⟨name⟩)

end SassImports.Config
