/-!
# File errors

What can go wrong with a path, and how the operating system words it.
-/

namespace LineScript

/-- Why a path cannot be used. -/
inductive FileError where
  | notFound
  | notFolder
  | isFolder
  | nameTooLong
  | nulByte
  deriving DecidableEq

/-- The wording of a file error. -/
def FileError.message : FileError → String
  | notFound => "No such file or directory (os error 2)"
  | notFolder => "Not a directory (os error 20)"
  | isFolder => "Is a directory (os error 21)"
  | nameTooLong => "File name too long (os error 36)"
  | nulByte => "file name contained an unexpected NUL byte"

/-- Whether a path leads nowhere, as opposed to being unusable. -/
def FileError.isMissing : FileError → Bool
  | notFound | notFolder => true
  | _ => false

end LineScript
