/-! What the system says when it refuses a file or a program. -/

namespace EnvelopeWarp

inductive SystemError where
  | notFound
  | denied
  | alreadyExists
  | notDirectory
  | isDirectory
  /-- A path, or a name on it, longer than names of files may be. -/
  | nameTooLong
  /-- An argument longer than a program may be given. -/
  | argumentTooLong
  | notText
  /-- A null character in the name of a file. -/
  | nullInName
  /-- A null character in the name of a program or in an argument. -/
  | nullInArgument
  /-- Any other refusal, in the words of the system. -/
  | other (words : String)
deriving Repr, DecidableEq

def SystemError.message : SystemError → String
  | notFound => "No such file or directory (os error 2)"
  | denied => "Permission denied (os error 13)"
  | alreadyExists => "File exists (os error 17)"
  | notDirectory => "Not a directory (os error 20)"
  | isDirectory => "Is a directory (os error 21)"
  | nameTooLong => "File name too long (os error 36)"
  | argumentTooLong => "Argument list too long (os error 7)"
  | notText => "stream did not contain valid UTF-8"
  | nullInName => "file name contained an unexpected NUL byte"
  | nullInArgument => "nul byte found in provided data"
  | other words => words

end EnvelopeWarp
