/-! # Why a file or directory cannot be had or made -/

namespace ThemeCss

inductive FileFailure where
  | notFound
  | notADirectory
  | isADirectory
  | alreadyExists
  /-- A name, or a whole path, has more bytes than it may have. -/
  | nameTooLong
  /-- The character NUL stands in a path. -/
  | nulInPath
  /-- The bytes of the file are no text. -/
  | notText
deriving DecidableEq

namespace FileFailure

def message : FileFailure → String
  | notFound => "No such file or directory (os error 2)"
  | notADirectory => "Not a directory (os error 20)"
  | isADirectory => "Is a directory (os error 21)"
  | alreadyExists => "File exists (os error 17)"
  | nameTooLong => "File name too long (os error 36)"
  | nulInPath => "file name contained an unexpected NUL byte"
  | notText => "stream did not contain valid UTF-8"

end FileFailure

end ThemeCss
