/-!
# Faults of file operations
-/

namespace ToolGate.Files

/-- Why a file operation failed. -/
inductive Fault where
  | notFound
  | exists_
  | notDirectory
  | isDirectory
  | nameTooLong
  /-- A null character in a path. -/
  | nullInName
  | invalidArgument
  | busy
  /-- The content of a file is no text. -/
  | notText
deriving DecidableEq, Repr

namespace Fault

def message : Fault → String
  | .notFound => "No such file or directory (os error 2)"
  | .exists_ => "File exists (os error 17)"
  | .notDirectory => "Not a directory (os error 20)"
  | .isDirectory => "Is a directory (os error 21)"
  | .nameTooLong => "File name too long (os error 36)"
  | .nullInName => "file name contained an unexpected NUL byte"
  | .invalidArgument => "Invalid argument (os error 22)"
  | .busy => "Device or resource busy (os error 16)"
  | .notText => "stream did not contain valid UTF-8"

end Fault

end ToolGate.Files
