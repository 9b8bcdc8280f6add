/-
  SassImports/Path.lean
  =====================
  Paths of a file tree. A path keeps the text it was written with, since that text is what is
  shown, while most operations look at its components: repeated and trailing slashes and inner
  dots do not count, a leading slash, a leading dot and `..` do.

    * `components` is the view, `same` compares by it;
    * `join`, `parent?`, `relativeTo?` and `extension?` keep the text they do not touch as it is.

  A path falls into a `lead` (one slash, one dot, or nothing) and a `body`, whose pieces between
  slashes are either a component or nothing at all (`Component.ofSegment?`).
-/
import SassImports.Text

namespace SassImports

/-- A path as it was written. -/
structure Path where
  /-- The path's text, never normalised. -/
  text : Text
  deriving DecidableEq, Repr, Inhabited

/-- What a path consists of, the empty pieces left out. -/
inductive Component where
  /-- The slash at the start of an absolute path. -/
  | root
  /-- The dot at the start of a relative path. -/
  | current
  /-- Two dots: one directory up. -/
  | up
  | name (name : Text)
  deriving DecidableEq, Repr

/-- The component that a piece between slashes stands for; nothing for an empty piece and a dot. -/
def Component.ofSegment? : Text → Option Component
  | [] => none
  | ['.'] => none
  | ['.', '.'] => some .up
  | segment => some (.name segment)

namespace Path

def ofString (s : String) : Path := ⟨s.toList⟩

/-! ### Lead and body -/

def isAbsolute (p : Path) : Bool := p.text.head? = some '/'

/-- The component at the very start that is not a name: the root or a leading dot. -/
def lead? (p : Path) : Option Component :=
  match p.text with
  | '/' :: _ => some .root
  | ['.'] => some .current
  | '.' :: '/' :: _ => some .current
  | _ => none

/-- The text of the lead: one character or none. -/
def leadText (p : Path) : Text := p.text.take (if p.lead?.isSome then 1 else 0)

def body (p : Path) : Text := p.text.drop (if p.lead?.isSome then 1 else 0)

theorem leadText_append_body (p : Path) : p.leadText ++ p.body = p.text :=
  List.take_append_drop _ _

def segments (p : Path) : List Text := p.body.splitOn '/'

theorem intercalate_segments (p : Path) : ['/'].intercalate p.segments = p.body :=
  List.intercalate_splitOn '/'

def components (p : Path) : List Component :=
  p.lead?.toList ++ p.segments.filterMap Component.ofSegment?

def same (p q : Path) : Bool := p.components = q.components

/-! ### Joining -/

/-- `p` extended by `q`: an absolute `q` replaces `p`, and otherwise a slash stands between them
    unless `p` is empty or already ends in one. -/
def join (p q : Path) : Path :=
  if q.isAbsolute || p.text.isEmpty then q
  else if p.text.getLast? = some '/' then ⟨p.text ++ q.text⟩
  else ⟨p.text ++ '/' :: q.text⟩

/-! ### Trimming pieces that are no component -/

/-- Whether a piece between slashes stands for nothing. -/
def isIdle (segment : Text) : Bool := (Component.ofSegment? segment).isNone

/-- The pieces without those at the end that stand for nothing. -/
def trimEnd (segments : List Text) : List Text := (segments.reverse.dropWhile isIdle).reverse

def trim (segments : List Text) : List Text := trimEnd (segments.dropWhile isIdle)

def ofSegments (lead : Text) (segments : List Text) : Path := ⟨lead ++ ['/'].intercalate segments⟩

/-! ### Parent -/

/-- The path without its last component. A lead has no parent but a leading dot, whose parent is
    the empty path. -/
def parent? (p : Path) : Option Path :=
  match p.segments.reverse.dropWhile isIdle, p.lead? with
  | _ :: before, _ => some (ofSegments p.leadText (trimEnd before.reverse))
  | [], some .current => some ⟨[]⟩
  | [], _ => none

/-! ### Relative paths -/

/-- The pieces left over once the components `cs` are matched from the left. -/
def afterComponents? : List Component → List Text → Option (List Text)
  | [], segments => some segments
  | _ :: _, [] => none
  | c :: cs, s :: segments =>
    match Component.ofSegment? s with
    | none => afterComponents? (c :: cs) segments
    | some d => if d = c then afterComponents? cs segments else none

/-- What of `p` comes below `base`, if the components of `base` start those of `p`. -/
def relativeTo? (p base : Path) : Option Path :=
  match base.components, p.lead? with
  | [], _ => some (ofSegments p.leadText (trimEnd p.segments))
  | c :: cs, some lead =>
    if lead = c then (afterComponents? cs p.segments).map fun rest => ofSegments [] (trim rest)
    else none
  | cs, none => (afterComponents? cs p.segments).map fun rest => ofSegments [] (trim rest)

/-! ### Names and extensions -/

/-- The last component, if it is a name. -/
def fileName? (p : Path) : Option Text :=
  match p.components.getLast? with
  | some (.name n) => some n
  | _ => none

/-- What follows the last dot of the file name; a dot at its start does not count. -/
def extension? (p : Path) : Option Text :=
  p.fileName?.bind fun n =>
    match Text.splitLast? '.' n with
    | some ([], _) => none
    | some (_, extension) => some extension
    | none => none

end Path
end SassImports
