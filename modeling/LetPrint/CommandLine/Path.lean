/-! File names.

A name is taken apart at its slashes, and parts that lead nowhere are left out:
`./p` and `p/` both mean `p`. A name that means nothing else means the working
directory. -/
namespace LetPrint.CommandLine

/-- The parts of a file name that lead somewhere. -/
def pathParts (name : List Char) : List (List Char) :=
  (name.splitOn '/').filter fun part => part ≠ [] && part ≠ ['.']

/-- What stands before the parts: a slash if the name begins with one, and two if
it begins with exactly two. -/
def pathRoot (name : List Char) : List Char :=
  match (name.takeWhile (· = '/')).length with
  | 0 => []
  | 2 => ['/', '/']
  | _ => ['/']

/-- A file name in its shortest form. -/
def normalPath (name : String) : String :=
  let path := pathRoot name.toList ++ ['/'].intercalate (pathParts name.toList)
  if path.isEmpty then "." else String.ofList path

/-- Why a file cannot be read. -/
inductive ReadFault where
  | noSuchFile
  | isDirectory
  | notDirectory
  | nameTooLong
  | other (reason : String)
deriving DecidableEq, Repr

def ReadFault.text : ReadFault → String
  | noSuchFile => "No such file or directory"
  | isDirectory => "Is a directory"
  | notDirectory => "Not a directory"
  | nameTooLong => "File name too long"
  | other reason => reason

end LetPrint.CommandLine
