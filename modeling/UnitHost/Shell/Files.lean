import UnitHost.Text.Utf8

/-!
# Files

What the shell reads: files by their path. `Directory` is a directory of files by name; paths are
taken relative to it.
-/

namespace UnitHost.Shell

/-- Why a file cannot be read. -/
inductive ReadFault where
  | notFound
  | notDirectory
  | isDirectory
  | nameTooLong
  | badName
  | notText
  | other (text : String)
  deriving DecidableEq, Repr

/-- A read fault in words. -/
def ReadFault.message : ReadFault → String
  | notFound => "No such file or directory (os error 2)"
  | notDirectory => "Not a directory (os error 20)"
  | isDirectory => "Is a directory (os error 21)"
  | nameTooLong => "File name too long (os error 36)"
  | badName => "file name contained an unexpected NUL byte"
  | notText => "stream did not contain valid UTF-8"
  | other text => text

/-- The contents of a file as text. -/
def textOf (bytes : List UInt8) : Except ReadFault String :=
  match Text.Utf8.decode? bytes with
  | some text => .ok text
  | none => .error .notText

/-- A directory that holds files and no other directory. -/
structure Directory where
  files : List (String × List UInt8) := []

namespace Directory

/-- The parts of a path. -/
def parts (path : List Char) : List (List Char) :=
  path.foldr (fun c parts =>
    match parts with
    | [] => [[c]]
    | part :: rest => if c == '/' then [] :: part :: rest else (c :: part) :: rest) [[]]

/-- Most bytes a part of a path can have. -/
def maxNameBytes : Nat := 255

/-- Most bytes a path can have. -/
def maxPathBytes : Nat := 4095

/-- Follows the parts of a path from the directory, or from outside it, where no file is seen. Parts
that are empty or a single dot stay where they are; two dots lead out. -/
def follow (d : Directory) (outside : Bool) : List String → Except ReadFault (List UInt8)
  | [] => .error .isDirectory
  | part :: rest =>
    if part == "" || part == "." then d.follow outside rest
    else if part == ".." then d.follow true rest
    else if maxNameBytes < part.utf8ByteSize then .error .nameTooLong
    else
      match if outside then none else d.files.lookup part with
      | none => .error .notFound
      | some bytes => if rest.isEmpty then .ok bytes else .error .notDirectory

/-- Reads the file at a path. -/
def read (d : Directory) (path : String) : Except ReadFault (List UInt8) :=
  let chars := path.toList
  if chars.contains '\x00' then .error .badName
  else if chars.isEmpty then .error .notFound
  else if maxPathBytes < path.utf8ByteSize then .error .nameTooLong
  else d.follow (chars.head? == some '/') ((parts chars).map String.ofList)

end Directory

end UnitHost.Shell
