/-
  SassImports/IoError.lean
  ========================
  What can go wrong between a path and its file. A disk fails in seven ways of its own; a probe of
  another make may report any `kind` with a text of its choice.
-/
import SassImports.Text

namespace SassImports

/-- The classes of failure that callers tell apart. -/
inductive IoError.Kind where
  | notFound
  | permissionDenied
  | notADirectory
  | isADirectory
  | filesystemLoop
  | invalidFilename
  | invalidInput
  | invalidData
  | timedOut
  | interrupted
  | other
  deriving DecidableEq, Repr

inductive IoError where
  /-- A name on the way is missing. -/
  | notFound
  /-- Something on the way is a file. -/
  | notADirectory
  | isADirectory
  /-- Too many symbolic links on the way. -/
  | filesystemLoop
  /-- A name, or the path as a whole, is too long. -/
  | invalidFilename
  | nulInPath
  | notUtf8
  /-- A failure as somebody else words it. -/
  | reported (kind : IoError.Kind) (text : Text)
  deriving DecidableEq, Repr

namespace IoError

def kind : IoError → Kind
  | .notFound => .notFound
  | .notADirectory => .notADirectory
  | .isADirectory => .isADirectory
  | .filesystemLoop => .filesystemLoop
  | .invalidFilename => .invalidFilename
  | .nulInPath => .invalidInput
  | .notUtf8 => .invalidData
  | .reported kind _ => kind

/-- The text of a failure; the system's own failures carry their number. -/
def message : IoError → Text
  | .notFound => "No such file or directory (os error 2)".toList
  | .notADirectory => "Not a directory (os error 20)".toList
  | .isADirectory => "Is a directory (os error 21)".toList
  | .filesystemLoop => "Too many levels of symbolic links (os error 40)".toList
  | .invalidFilename => "File name too long (os error 36)".toList
  | .nulInPath => "file name contained an unexpected NUL byte".toList
  | .notUtf8 => "stream did not contain valid UTF-8".toList
  | .reported _ text => text

end IoError
end SassImports
