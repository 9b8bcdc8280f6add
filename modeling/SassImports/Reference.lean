/-
  SassImports/Reference.lean
  ==========================
  The target of an `@import`, as the stylesheet names it, and the file names that may satisfy it.
  A reference is cut at forward slashes on every system.

    * `Parts.ofReference` finds directory, stem and extension;
    * `toPartial` puts an underscore before the stem, the name under which a partial is stored;
    * `candidates` lists the names to look for, best first;
    * `isPlainCss` singles out what is left to the browser.
-/
import SassImports.Text

namespace SassImports

/-- The target of an import as it is written in the stylesheet. -/
abbrev Reference := Text

namespace Reference

/-! ### Parts -/

structure Parts where
  /-- The text before the last slash; a lone slash where that is empty, nothing where it is a dot. -/
  directory? : Option Text
  /-- The base name up to its last dot. -/
  stem : Text
  /-- What follows the last dot of the base name. -/
  extension? : Option Text
  deriving DecidableEq, Repr

def Parts.ofBaseName (directory? : Option Text) (baseName : Text) : Parts :=
  match Text.splitLast? '.' baseName with
  | some (stem, extension) => ⟨directory?, stem, some extension⟩
  | none => ⟨directory?, baseName, none⟩

/-- The parts of a reference, whose trailing slashes do not count. -/
def Parts.ofReference (r : Reference) : Parts :=
  let trimmed := Text.trimEnd '/' r
  match Text.splitLast? '/' trimmed with
  | some ([], baseName) => .ofBaseName (some ['/']) baseName
  | some (['.'], baseName) => .ofBaseName none baseName
  | some (directory, baseName) => .ofBaseName (some directory) baseName
  | none => .ofBaseName none trimmed

def Parts.hasExtension (p : Parts) : Bool := p.extension?.any (!·.isEmpty)

/-! ### Partials -/

/-- What stands before the base name of a reference with these parts. -/
def Parts.directoryText (p : Parts) : Text :=
  match p.directory? with
  | none => []
  | some ['/'] => ['/']
  | some directory => directory ++ ['/']

/-- The dot and the extension, if there is one. -/
def Parts.extensionText (p : Parts) : Text :=
  match p.extension? with
  | none => []
  | some extension => '.' :: extension

/-- The reference with an underscore before its stem, even if there is one already. -/
def toPartial (r : Reference) : Reference :=
  let parts := Parts.ofReference r
  parts.directoryText ++ '_' :: parts.stem ++ parts.extensionText

/-! ### Candidates -/

/-- The extensions tried for a reference without one, best first. -/
def styleExtensions : List Text := ["scss".toList, "sass".toList]

def withExtensions (r : Reference) : List Reference := styleExtensions.map (r ++ '.' :: ·)

/-- The names to look for in a directory, best first: the reference and its partial, under every
    extension unless the reference has one. -/
def candidates (r : Reference) : List Reference :=
  if (Parts.ofReference r).hasExtension then [r, toPartial r]
  else withExtensions r ++ withExtensions (toPartial r)

theorem length_candidates (r : Reference) :
    (candidates r).length = if (Parts.ofReference r).hasExtension then 2 else 4 := by
  unfold candidates
  split <;> rfl

/-! ### Plain CSS -/

/-- Whether the reference names a plain CSS file, which is left in the output as it is. -/
def isPlainCss (r : Reference) : Bool := ['.', 'c', 's', 's'].isSuffixOf r

theorem isPlainCss_iff {r : Reference} : isPlainCss r = true ↔ ['.', 'c', 's', 's'] <:+ r :=
  List.isSuffixOf_iff_suffix

end Reference
end SassImports
