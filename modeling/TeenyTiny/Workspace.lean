/-!
# A tree of files

A workspace is a working directory with the files and directories below it, and whatever has been
put beside or above it. A location is where something lies; a path is how a user speaks of a
location, relative to the working directory unless it starts with a slash.

A path is followed name by name, and every name but the last has to lead to a directory. A file
is read or written as a whole. The system around the files may refuse either for reasons of its own,
and then nothing is done (`Refusals`).
-/

set_option autoImplicit false

namespace TeenyTiny

/-- Why a file could not be read or written. -/
inductive FileError where
  | missing
  /-- A file stands where a directory is needed. -/
  | notDirectory
  /-- A directory stands where a file is needed. -/
  | isDirectory
  | nameTooLong
  /-- A path holds NUL. -/
  | nulInPath
  /-- The content is not UTF-8. -/
  | notText
  /-- Any other refusal, as the system words it. -/
  | other (description : String)
  deriving DecidableEq

namespace FileError

/-- What is reported of a failure. -/
def message : FileError → String
  | missing => "No such file or directory (os error 2)"
  | notDirectory => "Not a directory (os error 20)"
  | isDirectory => "Is a directory (os error 21)"
  | nameTooLong => "File name too long (os error 36)"
  | nulInPath => "file name contained an unexpected NUL byte"
  | notText => "stream did not contain valid UTF-8"
  | other description => description

end FileError

/-- Where a file or a directory lies. -/
inductive Location where
  /-- So many directories above the working directory. -/
  | above (levels : Nat)
  /-- The root of all directories. -/
  | root
  /-- Under a name in a directory. -/
  | entry (directory : Location) (name : String)
  deriving DecidableEq

namespace Location

/-- The working directory. -/
def here : Location := .above 0

/-- The directory around a location. The root lies in itself. -/
def parent : Location → Location
  | above levels => above (levels + 1)
  | root => root
  | entry directory _ => directory

/-- The names that lead from the working directory to a location below it, the last one first. -/
def namesBelow? : Location → Option (List String)
  | above 0 => some []
  | above _ | root => none
  | entry directory name => directory.namesBelow?.map (name :: ·)

/-- How a location below the working directory is written, with slashes between the names. -/
def relativePath? (location : Location) : Option String :=
  location.namesBelow?.map fun names => String.intercalate "/" names.reverse

end Location

/-- The longest name of a directory entry, in bytes. -/
def maxNameBytes : Nat := 255

/-- The longest path, in bytes. -/
def maxPathBytes : Nat := 4095

/-- The files and directories that exist. -/
structure Workspace where
  /-- Each file that exists with its content. -/
  files : List (Location × ByteArray) := []
  /-- The directories that exist, those above the working directory and the root aside. -/
  directories : List Location := []

namespace Workspace

/-- Whether a directory lies at a location. -/
def isDirectory (workspace : Workspace) : Location → Bool
  | .above _ | .root => true
  | location => workspace.directories.contains location

/-- The content of the file at a location. -/
def content? (workspace : Workspace) (location : Location) : Option ByteArray :=
  workspace.files.lookup location

/-- Puts a file at a location, in place of the one there. -/
def put (workspace : Workspace) (location : Location) (content : ByteArray) : Workspace :=
  { workspace with
    files := (location, content) :: workspace.files.filter fun file => file.1 != location }

/-! ## Following a path -/

/-- Goes from a directory to one of its directories by name. -/
def enter (workspace : Workspace) (directory : Location) (name : String) :
    Except FileError Location :=
  if name = "." then .ok directory
  else if name = ".." then .ok directory.parent
  else if name.utf8ByteSize > maxNameBytes then .error .nameTooLong
  else if workspace.isDirectory (.entry directory name) then .ok (.entry directory name)
  else if (workspace.content? (.entry directory name)).isSome then .error .notDirectory
  else .error .missing

/-- Goes from a directory along several names. -/
def enterAll (workspace : Workspace) (directory : Location) :
    List String → Except FileError Location
  | [] => .ok directory
  | name :: names =>
      match workspace.enter directory name with
      | .ok inner => workspace.enterAll inner names
      | .error failure => .error failure

/-- What a path comes to, its last name not yet looked up. -/
inductive Target where
  /-- A directory, named as such. -/
  | directory
  /-- A name in a directory; a slash after it says that a directory is meant. -/
  | name (directory : Location) (name : String) (slash : Bool)
  deriving DecidableEq

/-- The names of a path; empty ones do not count. -/
def pathNames (path : String) : List String :=
  ((path.toList.splitOn '/').filter (· != [])).map String.ofList

/-- Follows a path up to its last name. -/
def follow (workspace : Workspace) (path : String) : Except FileError Target :=
  if path = "" then .error .missing
  else if path.toList.contains '\x00' then .error .nulInPath
  else if path.utf8ByteSize > maxPathBytes then .error .nameTooLong
  else
    let start := if path.toList.head? = some '/' then Location.root else Location.here
    let names := pathNames path
    match workspace.enterAll start names.dropLast, names.getLast? with
    | .error failure, _ => .error failure
    | .ok _, none => .ok .directory
    | .ok directory, some last =>
        if last = "." ∨ last = ".." then .ok .directory
        else .ok (.name directory last (path.toList.getLast? = some '/'))

/-! ## Reading and writing -/

/-- The content of the file that a path leads to. -/
def read (workspace : Workspace) (path : String) : Except FileError ByteArray :=
  match workspace.follow path with
  | .error failure => .error failure
  | .ok .directory => .error .isDirectory
  | .ok (.name directory name slash) =>
      if name.utf8ByteSize > maxNameBytes then .error .nameTooLong
      else if workspace.isDirectory (.entry directory name) then .error .isDirectory
      else
        match workspace.content? (.entry directory name) with
        | none => .error .missing
        | some content => if slash then .error .notDirectory else .ok content

/-- The workspace with a content written to the file that a path leads to. The file is made if
there is none; its directory is not. -/
def write (workspace : Workspace) (path : String) (content : ByteArray) :
    Except FileError Workspace :=
  match workspace.follow path with
  | .error failure => .error failure
  | .ok .directory => .error .isDirectory
  | .ok (.name directory name slash) =>
      if slash then .error .isDirectory
      else if name.utf8ByteSize > maxNameBytes then .error .nameTooLong
      else if workspace.isDirectory (.entry directory name) then .error .isDirectory
      else .ok (workspace.put (.entry directory name) content)

/-- What the system refuses in the course of a job, whatever files there are. It may have any
reason: rights that are missing, a disk that is full. -/
structure Refusals where
  /-- Why nothing can be read. -/
  reading? : Option FileError := none
  /-- Why nothing can be written. -/
  writing? : Option FileError := none

/-- The content of the file that a path leads to, unless the system refuses to have it read. -/
def readUnless (workspace : Workspace) (refusal? : Option FileError) (path : String) :
    Except FileError ByteArray :=
  match refusal? with
  | some cause => .error cause
  | none => workspace.read path

/-- The workspace with a content written to a file, unless the system refuses to have it written. -/
def writeUnless (workspace : Workspace) (refusal? : Option FileError) (path : String)
    (content : ByteArray) : Except FileError Workspace :=
  match refusal? with
  | some cause => .error cause
  | none => workspace.write path content

/-! ## Setting up and listing -/

/-- Makes a directory at a location, unless there is one. -/
def makeDirectory (workspace : Workspace) (location : Location) : Workspace :=
  if workspace.isDirectory location then workspace
  else { workspace with directories := location :: workspace.directories }

/-- Goes from a directory along names and makes every directory on the way that is not there, also
one that is left again. Says where this leads. -/
def makeAll (workspace : Workspace) (directory : Location) : List String → Workspace × Location
  | [] => (workspace, directory)
  | name :: names =>
      if name = "." then workspace.makeAll directory names
      else if name = ".." then workspace.makeAll directory.parent names
      else (workspace.makeDirectory (.entry directory name)).makeAll (.entry directory name) names

/-- Puts a file where a path leads from the working directory, and makes the directories on the
way. A path without names leads to no file. -/
def place (workspace : Workspace) (path : String) (content : ByteArray) : Workspace :=
  let names := pathNames path
  match names.getLast? with
  | none => workspace
  | some last =>
      let made := workspace.makeAll .here names.dropLast
      made.1.put (.entry made.2 last) content

/-- A workspace with the given directories and files below the working directory. -/
def ofListing (directories : List String) (files : List (String × ByteArray)) : Workspace :=
  let made := directories.foldl
    (fun workspace path => (workspace.makeAll .here (pathNames path)).1) {}
  files.foldl (fun workspace file => workspace.place file.1 file.2) made

/-- The files below the working directory, each with its path. -/
def listing (workspace : Workspace) : List (String × ByteArray) :=
  workspace.files.filterMap fun file => file.1.relativePath?.map (·, file.2)

end Workspace

end TeenyTiny
