import VectorStack.Files.Path
import VectorStack.Text.Utf8
/-!
Files as they are read: by a path from the current directory, whole and as text.
-/

namespace VectorStack

/-- Why a file cannot be read as text. -/
inductive FileFault where
  | notFound
  | isDirectory
  | notDirectory
  | nameTooLong
  | nameHasNul
  | notText
deriving DecidableEq, Repr

namespace FileFault

def message : FileFault → String
  | notFound => "No such file or directory (os error 2)"
  | isDirectory => "Is a directory (os error 21)"
  | notDirectory => "Not a directory (os error 20)"
  | nameTooLong => "File name too long (os error 36)"
  | nameHasNul => "file name contained an unexpected NUL byte"
  | notText => "stream did not contain valid UTF-8"

end FileFault

/-- Answers the text of the file at a path. -/
abbrev FileReader := String → Except FileFault (List Char)

/-- Files below the current directory, by the names on the way to them. -/
structure FileTree where
  files : List (List String × Bytes)
deriving Repr

/-- A place that a path leads to. -/
inductive FilePlace where
  /-- Below the current directory, by the names on the way, the last one first. -/
  | inside (names : List String)
  /-- A directory above the current one. -/
  | outside
deriving DecidableEq, Repr

/-- What is at a place. -/
inductive FileKind where
  | file (content : Bytes)
  | directory
  | missing
deriving DecidableEq, Repr

namespace FileTree

/-- The tree of files given by paths with slashes. -/
def ofPaths (files : List (String × Bytes)) : FileTree :=
  ⟨files.map fun (path, content) =>
    ((Path.parts path).filter fun part => part != "" && part != ".", content)⟩

/-- What is at a place. A directory is there when a file is below it. -/
def kindAt (tree : FileTree) : FilePlace → FileKind
  | .outside => .directory
  | .inside [] => .directory
  | .inside names =>
    let path := names.reverse
    match tree.files.lookup path with
    | some content => .file content
    | none => if tree.files.any fun file => path.isPrefixOf file.1 then .directory else .missing

/-- One part of a path. -/
def enter (place : FilePlace) (part : String) : Except FileFault FilePlace :=
  if 255 < part.utf8ByteSize then .error .nameTooLong
  else if part = "" ∨ part = "." then .ok place
  else
    match place with
    | .outside => if part = ".." then .ok .outside else .error .notFound
    | .inside names =>
      if part = ".." then .ok (if names.isEmpty then .outside else .inside names.tail)
      else .ok (.inside (part :: names))

/-- Where the parts of a path lead; every part is looked up in a directory. -/
def walk (tree : FileTree) (place : FilePlace) : List String → Except FileFault FilePlace
  | [] => .ok place
  | part :: rest =>
    match tree.kindAt place with
    | .file _ => .error .notDirectory
    | .missing => .error .notFound
    | .directory =>
      match enter place part with
      | .error fault => .error fault
      | .ok place => tree.walk place rest

/-- The text of the file at a path. -/
def read (tree : FileTree) (path : String) : Except FileFault (List Char) :=
  if path.contains '\x00' then .error .nameHasNul
  else if path = "" then .error .notFound
  else if 4095 < path.utf8ByteSize then .error .nameTooLong
  else
    let start := if Path.isAbsolute path then FilePlace.outside else .inside []
    match tree.walk start (Path.parts path) with
    | .error fault => .error fault
    | .ok place =>
      match tree.kindAt place with
      | .missing => .error .notFound
      | .directory => .error .isDirectory
      | .file content =>
        match Text.decode? content with
        | some text => .ok text
        | none => .error .notText

end FileTree

end VectorStack
