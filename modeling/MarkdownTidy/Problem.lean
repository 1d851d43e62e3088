namespace MarkdownTidy

/-- Why the file system refuses to read or write. -/
inductive Fault where
  | noSuchFile
  | notFolder
  | isFolder
  | nameTooLong
  | nulInPath
  /-- Any other refusal, in the system's own words. -/
  | refused (reason : String)
  deriving DecidableEq

/-- The text of a fault; the numbers are the system's own. -/
def Fault.message : Fault → String
  | noSuchFile => "No such file or directory (os error 2)"
  | notFolder => "Not a directory (os error 20)"
  | isFolder => "Is a directory (os error 21)"
  | nameTooLong => "File name too long (os error 36)"
  | nulInPath => "file name contained an unexpected NUL byte"
  | refused reason => reason

/-- What can go wrong. Tidying a text cannot: problems come from files, from rule codes and from
reports. -/
inductive Problem where
  /-- A rule code, white space around it dropped, that names no rule. -/
  | unknownRule (code : String)
  /-- A file, told by its path as it is shown, whose longest start in UTF-8 ends at the given byte. -/
  | notUtf8 (path : String) (offset : Nat)
  | storage (fault : Fault)
  /-- A path that is no text, where JSON is to hold it. -/
  | pathNotText
  deriving DecidableEq

def Problem.message : Problem → String
  | unknownRule code => "Unknown rule: " ++ code
  | notUtf8 path offset =>
    "Encoding error: " ++ path ++ " is not valid UTF-8 (invalid byte at offset " ++
      toString offset ++ ")"
  | storage fault => "I/O error: " ++ fault.message
  | pathNotText => "path contains invalid UTF-8 characters"

end MarkdownTidy
