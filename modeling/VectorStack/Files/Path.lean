/-!
File names as paths: the directory a file is in, and a name looked up in a directory.
-/

namespace VectorStack.Path

/-- The parts of a path between slashes. -/
def parts (path : String) : List String := path.splitOn "/"

def isAbsolute (path : String) : Bool := path.startsWith "/"

/-- Parts without empty ones and dots at the end. -/
def dropIdle (parts : List String) : List String :=
  (parts.reverse.dropWhile fun part => part == "" || part == ".").reverse

/-- Parts without empty ones and dots at the end, but with a dot that the path starts with. -/
def dropIdleRelative : List String → List String
  | "." :: rest => "." :: dropIdle rest
  | parts => dropIdle parts

/-- The directory that a file is in; the empty path is the current one. A path that names no file
has none. -/
def parent? (path : String) : Option String :=
  if isAbsolute path then
    match dropIdle ((parts path).drop 1) with
    | [] => none
    | body => some ("/" ++ String.intercalate "/" (dropIdle body.dropLast))
  else
    match dropIdleRelative (parts path) with
    | [] => none
    | body => some (String.intercalate "/" (dropIdleRelative body.dropLast))

/-- A name looked up in a directory; an absolute name is itself. -/
def join (directory name : String) : String :=
  if isAbsolute name || directory == "" then name
  else if directory.endsWith "/" then directory ++ name
  else directory ++ "/" ++ name

end VectorStack.Path
