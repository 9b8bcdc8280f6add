/-
  SassImports/Disk/Edit.lean
  ==========================
  Changing a disk. Directories on the way are made as they are needed, and links on the way are
  followed; an edit that cannot be made answers nothing.
-/
import SassImports.Disk

namespace SassImports.Disk

/-! ### One location -/

/-- The disk with everything at and below a location gone. -/
def removeAt (d : Disk) (l : Location) : Disk :=
  { d with entries := d.entries.filter fun p => !l.isSuffixOf p.1 }

/-- The disk with an entry put at a location, in place of what was there. -/
def insertAt (d : Disk) (l : Location) (e : Entry) : Disk :=
  { d.removeAt l with entries := (l, e) :: (d.removeAt l).entries }

/-! ### Paths -/

/-- Makes the directories that the pieces of a path name, from a directory on; the disk then and the
    last directory. -/
def makeDirectories (d : Disk) (here : Location) : List Text → Option (Disk × Location)
  | [] => some (d, here)
  | segment :: rest =>
    match Component.ofSegment? segment with
    | some .up => d.makeDirectories here.tail rest
    | some (.name name) =>
      match d.entry? (name :: here) with
      | none => (d.insertAt (name :: here) .directory).makeDirectories (name :: here) rest
      | some .directory => d.makeDirectories (name :: here) rest
      | some (.link _) =>
        match d.follow none maxLinks here [name] with
        | .ok l => if d.entry? l = some .directory then d.makeDirectories l rest else none
        | .error _ => none
      | some (.file _) => none
    | _ => d.makeDirectories here rest

/-- The disk with the directories on the way to a path's last name, the last of them, and that
    name. -/
def makeParents (d : Disk) (p : Path) : Option (Disk × Location × Text) :=
  match (p.text.splitOn '/').reverse.dropWhile Path.isIdle with
  | name :: before =>
    (d.makeDirectories (startOf p.text d.workingDirectory) before.reverse).map
      fun (d, parent) => (d, parent, name)
  | [] => none

/-- Puts a file at a name in a directory, or at the end of the links that stand there. -/
def writeAt (d : Disk) (content : Content) : Nat → Location → Text → Option Disk
  | 0, _, _ => none
  | links + 1, parent, name =>
    match d.entry? (name :: parent) with
    | some .directory => none
    | some (.link target) =>
      match (target.splitOn '/').reverse with
      | last :: before =>
        match d.follow none maxLinks (startOf target parent) before.reverse with
        | .ok l => d.writeAt content links l last
        | .error _ => none
      | [] => none
    | _ => some (d.insertAt (name :: parent) (.file content))

/-! ### Edits -/

def write (d : Disk) (p : Path) (content : Content) : Option Disk :=
  (d.makeParents p).bind fun (d, parent, name) => d.writeAt content maxLinks parent name

def makeDirectory (d : Disk) (p : Path) : Option Disk :=
  (d.makeDirectories (startOf p.text d.workingDirectory) (p.text.splitOn '/')).map (·.1)

/-- Makes a symbolic link, whose target need not exist. -/
def makeLink (d : Disk) (p : Path) (target : Text) : Option Disk :=
  (d.makeParents p).map fun (d, parent, name) => d.insertAt (name :: parent) (.link target)

def remove (d : Disk) (p : Path) : Option Disk :=
  (d.makeParents p).bind fun (_, parent, name) =>
    if (d.entry? (name :: parent)).isSome then some (d.removeAt (name :: parent)) else none

def changeDirectory (d : Disk) (p : Path) : Except IoError Disk :=
  match d.locate p with
  | .ok l =>
    if d.entry? l = some .directory then .ok { d with workingDirectory := l }
    else .error .notADirectory
  | .error e => .error e

end SassImports.Disk
