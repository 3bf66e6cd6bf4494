import VectorStack.Assembly.Config
import VectorStack.Files.Tree
/-!
Where imported text is looked for: next to the source that imports it, then in the current
directory, then in every search path. A name that is no file is passed over; a file that cannot be
read ends the search.
-/

namespace VectorStack

/-- Why an import failed. -/
inductive ImportFault where
  /-- No source has the name; the text says where it was looked for. -/
  | notFound (message : String)
  | unreadable (fault : FileFault)
deriving DecidableEq, Repr

namespace Files

/-- The paths at which a name is looked for, in order. -/
def candidates (paths : List String) (name importing : String) : List String :=
  ((Path.parent? importing).map (Path.join · name)).toList ++ name :: paths.map (Path.join · name)

/-- The first of some paths at which there is a file, with its text. -/
def firstReadable (reader : FileReader) : List String → Except FileFault (String × List Char)
  | [] => .error .notFound
  | path :: rest =>
    match reader path with
    | .ok text => .ok (path, text)
    | .error .notFound => firstReadable reader rest
    | .error fault => .error fault

/-- Find the text that a source imports by name. -/
def load (reader : FileReader) (paths : List String) (name importing : String) :
    Except ImportFault (String × List Char) :=
  match firstReadable reader (candidates paths name importing) with
  | .ok found => .ok found
  | .error .notFound =>
    .error (.notFound ("`" ++ name ++ "` not found next to `" ++ importing ++
      "` or in a search path"))
  | .error fault => .error (.unreadable fault)

/-- Import from files. -/
def importer (reader : FileReader) (paths : List String) : Importer := fun name importing =>
  (load reader paths name importing).toOption

end Files

namespace SourceTable

/-- Find a text by its exact name. -/
def load (sources : List (String × List Char)) (name : String) :
    Except ImportFault (String × List Char) :=
  match sources.lookup name with
  | some text => .ok (name, text)
  | none => .error (.notFound ("no source `" ++ name ++ "`"))

/-- Import from texts with names, wherever the import stands. -/
def importer (sources : List (String × List Char)) : Importer := fun name _ =>
  (load sources name).toOption

end SourceTable

end VectorStack
