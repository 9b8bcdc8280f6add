/-
  SassImports/Disk.lean
  =====================
  A disk is a finite tree of directories, files and symbolic links, with a working directory. Places
  on it are `Location`s: the names from the entry up to the root, innermost first, so that entering a
  directory is `::` and leaving it is `tail`.

    * `follow` takes a path piece by piece from a directory on and names the first fault on the way;
    * `exists?`, `isFile` and `read` answer from the entry at the location that a path leads to, and
      bound the length of the path as it is written;
    * `canonicalize` is this location, links resolved; it bounds the length of the absolute path on
      the way, so a path that outgrows the bound through links exists and has no canonical location
      (`mem_locations_of_canonicalize`: the location is a place on the disk).

  There are no permissions: every directory can be searched and every file can be read.
-/
import SassImports.IoError
import SassImports.Path

namespace SassImports

/-! ### Entries and locations -/

/-- A place on a disk: names from the innermost outwards; the root has none. -/
abbrev Location := List Text

/-- What a file holds: a text, or bytes that are no UTF-8. -/
inductive Content where
  | text (text : Text)
  | binary
  deriving DecidableEq, Repr

inductive Entry where
  | directory
  | file (content : Content)
  /-- A symbolic link, with its target as it was written. -/
  | link (target : Text)
  deriving DecidableEq, Repr

/-- A file tree and the directory that relative paths start from. -/
structure Disk where
  /-- The entries below the root; the first one for a location counts. -/
  entries : List (Location × Entry)
  workingDirectory : Location
  deriving DecidableEq, Repr

namespace Disk

def empty : Disk := ⟨[], []⟩

/-- What stands at a location. The root is always a directory. -/
def entry? (d : Disk) : Location → Option Entry
  | [] => some .directory
  | location => (d.entries.find? (·.1 = location)).map (·.2)

def locations (d : Disk) : List Location := [] :: d.entries.map (·.1)

theorem mem_locations_of_entry? {d : Disk} {l : Location} {e : Entry} (h : d.entry? l = some e) :
    l ∈ d.locations := by
  cases l with
  | nil => exact List.mem_cons_self
  | cons n l =>
    obtain ⟨p, hp, -⟩ := Option.map_eq_some_iff.1 h
    have hl : p.1 = n :: l := by simpa using List.find?_some hp
    exact List.mem_cons_of_mem _ (hl ▸ List.mem_map_of_mem (List.mem_of_find?_eq_some hp))

/-! ### Following a path -/

def maxNameLength : Nat := 255

/-- The number of bytes that stay below a path's limit. -/
def pathLimit : Nat := 4096

/-- The number of links that may be followed on one way. -/
def maxLinks : Nat := 40

/-- The bytes of the absolute path of a place other than the root, a slash before each name. -/
def pathLength (l : Location) : Nat :=
  l.foldr (fun name bytes => 1 + Text.byteLength name + bytes) 0

/-- Whether a piece leads from a place to an absolute path that is not below the limit, if there is
    one. Only names make paths longer. -/
def outgrows (limit? : Option Nat) (here : Location) (segment : Text) : Bool :=
  match Component.ofSegment? segment with
  | some (.name name) => limit?.any (· ≤ pathLength (name :: here))
  | _ => false

@[simp] theorem outgrows_none (here : Location) (segment : Text) :
    outgrows none here segment = false := by
  unfold outgrows
  split <;> rfl

/-- The directory in which a text that starts with a slash, or does not, is looked up. -/
def startOf (text : Text) (here : Location) : Location :=
  if text.head? = some '/' then [] else here

/-- What taking one piece of a path comes to. -/
inductive Step where
  | fault (error : IoError)
  | reach (place : Location)
  /-- The pieces of a link's target come next. -/
  | link (place : Location) (target : List Text)

/-- Takes a piece from a place. Every piece needs a directory to start from, also a piece that stands
    for nothing. -/
def step (d : Disk) (limit? : Option Nat) (here : Location) (segment : Text) : Step :=
  if outgrows limit? here segment then .fault .invalidFilename
  else
    match d.entry? here with
    | some .directory =>
      match Component.ofSegment? segment with
      | some .up => .reach here.tail
      | some (.name name) =>
        if maxNameLength < Text.byteLength name then .fault .invalidFilename
        else
          match d.entry? (name :: here) with
          | none => .fault .notFound
          | some (.link target) => .link (startOf target here) (target.splitOn '/')
          | some _ => .reach (name :: here)
      | _ => .reach here
    | some _ => .fault .notADirectory
    | none => .fault .notFound

/-- Takes the pieces of a path from a place on; `onLink` goes on after a link. -/
def followWith (d : Disk) (limit? : Option Nat)
    (onLink : Location → List Text → Except IoError Location) :
    Location → List Text → Except IoError Location
  | here, [] => if (d.entry? here).isSome then .ok here else .error .notFound
  | here, segment :: rest =>
    match d.step limit? here segment with
    | .fault e => .error e
    | .reach place => d.followWith limit? onLink place rest
    | .link place target => onLink place (target ++ rest)

/-- Takes the pieces of a path from a place on, following at most `links` links. -/
def follow (d : Disk) (limit? : Option Nat) :
    Nat → Location → List Text → Except IoError Location
  | 0 => d.followWith limit? fun _ _ => .error .filesystemLoop
  | links + 1 => d.followWith limit? (d.follow limit? links)

theorem mem_locations_of_followWith {d : Disk} {limit? : Option Nat}
    {onLink : Location → List Text → Except IoError Location} {here l : Location}
    {rest : List Text} (hlink : ∀ here rest, onLink here rest = .ok l → l ∈ d.locations)
    (h : d.followWith limit? onLink here rest = .ok l) : l ∈ d.locations := by
  induction rest generalizing here with
  | nil =>
    unfold followWith at h
    split at h
    · next hs =>
      obtain ⟨e, he⟩ := Option.isSome_iff_exists.1 hs
      obtain rfl := Except.ok.inj h
      exact mem_locations_of_entry? he
    · cases h
  | cons segment rest ih =>
    unfold followWith at h
    split at h
    · cases h
    · exact ih h
    · exact hlink _ _ h

theorem mem_locations_of_follow {d : Disk} {limit? : Option Nat} {links : Nat}
    {here l : Location} {rest : List Text} (h : d.follow limit? links here rest = .ok l) :
    l ∈ d.locations := by
  induction links generalizing here rest with
  | zero => exact mem_locations_of_followWith (fun _ _ h => by cases h) h
  | succ links ih => exact mem_locations_of_followWith (fun _ _ h => ih h) h

/-! ### Where paths lead -/

/-- Where a path leads, all links resolved and within the limit on absolute paths. -/
def resolve (d : Disk) (limit? : Option Nat) (p : Path) : Except IoError Location :=
  if '\x00' ∈ p.text then .error .nulInPath
  else if p.text = [] then .error .notFound
  else d.follow limit? maxLinks (startOf p.text d.workingDirectory) (p.text.splitOn '/')

/-- The place that a path leads to, if its absolute path stays below the limit all the way. -/
def canonicalize (d : Disk) (p : Path) : Except IoError Location := d.resolve (some pathLimit) p

theorem mem_locations_of_canonicalize {d : Disk} {p : Path} {l : Location}
    (h : d.canonicalize p = .ok l) : l ∈ d.locations := by
  unfold canonicalize resolve at h
  split at h
  · cases h
  · split at h
    · cases h
    · exact mem_locations_of_follow h

/-! ### Asking for files -/

/-- The location that a path leads to in a request for the entry there, which has a limit on the
    length of the path as it is written. -/
def locate (d : Disk) (p : Path) : Except IoError Location :=
  if pathLimit ≤ Text.byteLength p.text ∧ '\x00' ∉ p.text then .error .invalidFilename
  else d.resolve none p

def find (d : Disk) (p : Path) : Except IoError Entry :=
  match d.locate p with
  | .ok l => match d.entry? l with
    | some e => .ok e
    | none => .error .notFound
  | .error e => .error e

/-- Whether something is at a path. Nothing there is an answer, and any other fault is an error. -/
def exists? (d : Disk) (p : Path) : Except IoError Bool :=
  match d.find p with
  | .ok _ => .ok true
  | .error .notFound => .ok false
  | .error e => .error e

def isFile (d : Disk) (p : Path) : Bool :=
  match d.find p with
  | .ok (.file _) => true
  | _ => false

def read (d : Disk) (p : Path) : Except IoError Text :=
  match d.find p with
  | .ok (.file (.text text)) => .ok text
  | .ok (.file .binary) => .error .notUtf8
  | .ok _ => .error .isADirectory
  | .error e => .error e

end Disk
end SassImports
