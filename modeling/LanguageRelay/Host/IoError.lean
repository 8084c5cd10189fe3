namespace LanguageRelay.Host

inductive IoError where
  | notFound
  | permissionDenied
  | alreadyExists
  | notDirectory
  | isDirectory
  | directoryNotEmpty
  | tooManyLinks
  | nameTooLong
  | badFormat
  | nulInPath
  | notText
deriving DecidableEq, Repr

namespace IoError

def kind : IoError → String
  | .notFound => "entity not found"
  | .permissionDenied => "permission denied"
  | .alreadyExists => "entity already exists"
  | .notDirectory => "not a directory"
  | .isDirectory => "is a directory"
  | .directoryNotEmpty => "directory not empty"
  | .tooManyLinks => "filesystem loop or indirection limit (e.g. symlink loop)"
  | .nameTooLong => "invalid filename"
  | .badFormat => "uncategorized error"
  | .nulInPath => "invalid input parameter"
  | .notText => "invalid data"

def message : IoError → String
  | .notFound => "No such file or directory (os error 2)"
  | .permissionDenied => "Permission denied (os error 13)"
  | .alreadyExists => "File exists (os error 17)"
  | .notDirectory => "Not a directory (os error 20)"
  | .isDirectory => "Is a directory (os error 21)"
  | .directoryNotEmpty => "Directory not empty (os error 39)"
  | .tooManyLinks => "Too many levels of symbolic links (os error 40)"
  | .nameTooLong => "File name too long (os error 36)"
  | .badFormat => "Exec format error (os error 8)"
  | .nulInPath => "file name contained an unexpected NUL byte"
  | .notText => "stream did not contain valid UTF-8"

end IoError
end LanguageRelay.Host
