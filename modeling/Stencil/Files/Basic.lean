/-! What a program gets to see of a file system: the texts of files and the files below a
folder. Whoever offers both is a place to load templates from. -/

namespace Stencil

/-- Why the text of a file cannot be had. -/
inductive ReadError where
  | missing
  /-- What should be a folder on the way to the file is a file. -/
  | notFolder
  | isFolder
  | nameTooLong
  /-- The bytes of the file are no UTF-8. -/
  | notText
  /-- Any other reason, in the words of the system. -/
  | other (reason : String)
deriving DecidableEq, Repr

def ReadError.message : ReadError → String
  | .missing => "No such file or directory (os error 2)"
  | .notFolder => "Not a directory (os error 20)"
  | .isFolder => "Is a directory (os error 21)"
  | .nameTooLong => "File name too long (os error 36)"
  | .notText => "stream did not contain valid UTF-8"
  | .other reason => reason

structure Files where
  read : String → Except ReadError String
  /-- The names that lead from a folder to each file below it, but for hidden files and
  folders, whose names begin with a dot. -/
  below? : String → Option (List (List String))

end Stencil
