import SearchTable.Text.Blank
/-!
# Files by path

What is found at a path, and a folder of files in which paths are looked up.  A path names its parts
between slashes, from the folder on; a part `.` stays where it is and `..` goes back.  A path may
lead out of the folder: what is around it are folders too, but their content is not known.  A path
that starts with a slash is looked up in the system, of which the common folders are known.
-/

namespace SearchTable.Command

/-- What is found at a path. -/
inductive Found where
  /-- There is nothing. -/
  | missing
  /-- There is something that cannot be read as text, such as a folder. -/
  | unreadable
  | text (content : String)
  deriving DecidableEq, Repr

namespace Found

/-- Whether there is something. -/
def isThere : Found → Bool
  | missing => false
  | _ => true

end Found

/-- A folder: texts by the paths of the files that hold them, and the paths of further folders.  Of
two texts with one path the later one counts. -/
structure Folder where
  files : List (String × String)
  folders : List String := []
  /-- Whether going back from the folder stays in it. -/
  isRoot : Bool := false
  deriving Repr, Inhabited

/-- The parts of a path that lead somewhere. -/
def pathParts (path : String) : List String := (Text.split '/' path).filter (· ≠ "")

/-- Whether a part of a path leads from a folder to another one, whatever their content. -/
def isStep (part : String) : Bool := part == "" || part == "." || part == ".."

namespace Folder

/-- The files by the parts of their paths, the last one first. -/
def partsOfFiles (folder : Folder) : List (List String × String) :=
  folder.files.reverse.map fun (path, content) => (pathParts path, content)

/-- Whether a place, which is given by its parts, is the folder itself or a folder in it. -/
def isFolder (folder : Folder) (place : List String) : Bool :=
  place.isEmpty ||
    (folder.partsOfFiles.any fun file => place.isPrefixOf file.1 && place != file.1) ||
      folder.folders.any fun path => place.isPrefixOf (pathParts path)

/-- What is found at a place in the folder. -/
def foundAt (folder : Folder) (place : List String) : Found :=
  if folder.isFolder place then .unreadable
  else
    match folder.partsOfFiles.lookup place with
    | some content => .text content
    | none => .missing

/-- What is found at the end of a path from a place in the folder. -/
def walk (folder : Folder) (place : List String) : List String → Found
  | [] => folder.foundAt place
  | part :: rest =>
    if folder.isFolder place then
      if part = "" ∨ part = "." then walk folder place rest
      else if part = ".." then
        if place.isEmpty && !folder.isRoot then
          if rest.all isStep then .unreadable else .missing
        else walk folder place.dropLast rest
      else walk folder (place ++ [part]) rest
    else .missing

/-- The folders that are common to systems, and the device that reads as an empty file. -/
def ofSystem : Folder where
  files := [("dev/null", "")]
  folders :=
    ["bin", "dev", "etc", "home", "lib", "opt", "proc", "root", "run", "sbin", "sys", "tmp",
      "usr/bin", "usr/lib", "usr/local", "var/lib", "var/log", "var/tmp"]
  isRoot := true

/-- What is found at a path. -/
def look (folder : Folder) (path : String) : Found :=
  match path.toList with
  | [] => .missing
  | '/' :: _ => ofSystem.walk [] (Text.split '/' path)
  | _ => folder.walk [] (Text.split '/' path)

/-- The folder with empty files of some names, where there are none yet. -/
def withFiles (names : List String) (folder : Folder) : Folder :=
  { folder with files := names.map (fun name => (name, "")) ++ folder.files }

end Folder

end SearchTable.Command
