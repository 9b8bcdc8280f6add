/-
  SassImports/Stylesheet/Import.lean
  ==================================
  The import references of a stylesheet: the targets of its import statements in order of
  appearance, comments aside, without empty ones and without repetitions.
-/
import SassImports.Reference
import SassImports.Stylesheet.Comment
import SassImports.Stylesheet.Statement
import SassImports.Stylesheet.Target

namespace SassImports.Stylesheet

def targets (text : Text) : List Text := (Statement.bodies text).flatMap Target.ofBody

def importReferences (source : Text) : List Reference :=
  ((targets (stripComments source)).filter (!·.isEmpty)).eraseDups

end SassImports.Stylesheet
