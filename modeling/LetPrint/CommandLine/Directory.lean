import LetPrint.CommandLine.Path

/-! A directory held in memory.

It stands for the working directory of a command: files by their names, and
directories. Reading from it fails the way reading from a disk does. -/
namespace LetPrint.CommandLine

structure Directory where
  /-- The files, each under its path, with their bytes. -/
  files : List (List (List Char) × List UInt8)
  /-- The directories, each under its path. -/
  folders : List (List (List Char))

namespace Directory

/-- Whether a path leads to a directory. -/
def isFolder (d : Directory) (path : List (List Char)) : Bool :=
  path.isEmpty || d.folders.contains path ||
    d.files.any fun (file, _) => path.isPrefixOf file && path ≠ file

/-- The bytes at the end of the parts of a path, from the directory at `here` on. -/
def readFrom (d : Directory) (here : List (List Char)) :
    List (List Char) → Except ReadFault (List UInt8)
  | [] =>
    match d.files.lookup here with
    | some bytes => .ok bytes
    | none => if d.isFolder here then .error .isDirectory else .error .noSuchFile
  | part :: parts =>
    if d.isFolder here then
      if part = ['.', '.'] then
        if here.isEmpty then .error (if parts.isEmpty then .isDirectory else .noSuchFile)
        else d.readFrom here.dropLast parts
      else if 255 < (String.ofList part).utf8ByteSize then .error .nameTooLong
      else d.readFrom (here ++ [part]) parts
    else if (d.files.lookup here).isSome then .error .notDirectory
    else .error .noSuchFile

/-- The bytes of the file with a name. A name from the root leads out of the
directory. -/
def read (d : Directory) (name : String) : Except ReadFault (List UInt8) :=
  match pathRoot name.toList, pathParts name.toList with
  | [], parts => d.readFrom [] parts
  | _, [] => .error .isDirectory
  | _, _ => .error .noSuchFile

end Directory

end LetPrint.CommandLine
