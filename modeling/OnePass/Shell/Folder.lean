import OnePass.Shell.Host

/-!
# A host in memory

A folder with files, in which the program can run without any effect outside.

* `Route` — a path taken apart into its names;
* `Folder` — the files by their paths;
* `Folder.walk` — where a route leads, name by name;
* `Folder.read`, `Folder.write` — with the failures of a file system;
* `Surroundings` — a folder with the standard streams, and `Surroundings.host` to run in it.
-/

namespace OnePass.Shell

/-- The failures of a file system. -/
inductive PathFault where
  | missing
  | notDirectory
  | isDirectory
  | tooLong
  | zeroInside
deriving DecidableEq, Repr

def PathFault.text : PathFault → String
  | missing => "No such file or directory (os error 2)"
  | notDirectory => "Not a directory (os error 20)"
  | isDirectory => "Is a directory (os error 21)"
  | tooLong => "File name too long (os error 36)"
  | zeroInside => "file name contained an unexpected NUL byte"

/-! ### Paths -/

def nameLimit : Nat := 255

def pathLimit : Nat := 4095

/-- A path taken apart. -/
structure Route where
  fromRoot : Bool
  names : List String
  toDirectory : Bool
deriving DecidableEq, Repr

def Route.ofPath (path : String) : Except PathFault Route :=
  if path.toList.contains '\x00' then .error .zeroInside
  else if path.isEmpty then .error .missing
  else if pathLimit < path.utf8ByteSize then .error .tooLong
  else .ok
    { fromRoot := path.toList.head? == some '/'
      names := (path.splitOn "/").filter (· != "")
      toDirectory := path.toList.getLast? == some '/' }

/-! ### Folders -/

/-- A file: the names on its path, and its content. -/
structure StoredFile where
  path : List String
  content : ByteArray

abbrev Folder := List StoredFile

/-- Where a route leads. -/
inductive Place where
  | directory (path : List String)
  | root
  | devices
  | around
  | file (path : List String)
  | nothing
  | free (path : List String)
  | beyond
deriving DecidableEq, Repr

def rootDirectories : List String :=
  ["bin", "boot", "etc", "home", "lib", "media", "mnt", "opt", "proc", "root", "run", "sbin", "srv", "sys",
    "tmp", "usr", "var"]

namespace Folder

def find? (folder : Folder) (path : List String) : Option StoredFile :=
  List.find? (fun file => file.path == path) folder

def hasBelow (folder : Folder) (path : List String) : Bool :=
  folder.any fun file => path.isPrefixOf file.path && file.path != path

def placeAt (folder : Folder) (path : List String) : Place :=
  if (folder.find? path).isSome then .file path
  else if path.isEmpty || folder.hasBelow path then .directory path
  else .free path

def above : Place → Place
  | .directory [] => .around
  | .directory path => .directory path.dropLast
  | .root | .devices => .root
  | place => place

def within (folder : Folder) (name : String) : Place → Place
  | .directory path => folder.placeAt (path ++ [name])
  | .root =>
      if name == "dev" then .devices
      else if rootDirectories.contains name then .around
      else .beyond
  | .devices => if name == "null" then .nothing else .beyond
  | _ => .beyond

def step (folder : Folder) (place : Place) (name : String) : Except PathFault Place :=
  match place with
  | .file _ | .nothing => .error .notDirectory
  | .free _ | .beyond => .error .missing
  | .directory _ | .root | .devices | .around =>
      if name == "." then .ok place
      else if name == ".." then .ok (above place)
      else if nameLimit < name.utf8ByteSize then .error .tooLong
      else .ok (folder.within name place)

def walk (folder : Folder) (fromRoot : Bool) (names : List String) : Except PathFault Place :=
  names.foldlM folder.step (if fromRoot then .root else .directory [])

def read (folder : Folder) (path : String) : Except PathFault ByteArray := do
  let route ← Route.ofPath path
  match ← folder.walk route.fromRoot route.names with
  | .file names =>
      if route.toDirectory then throw .notDirectory
      match folder.find? names with
      | some file => return file.content
      | none => throw .missing
  | .nothing => if route.toDirectory then throw .notDirectory else return .empty
  | .free _ | .beyond => throw .missing
  | .directory _ | .root | .devices | .around => throw .isDirectory

def put (folder : Folder) (path : List String) (content : ByteArray) : Folder :=
  match folder with
  | [] => [⟨path, content⟩]
  | file :: rest => if file.path == path then ⟨path, content⟩ :: rest else file :: put rest path content

/-- Writes a file. A slash at the end asks for a directory, whatever is at the last name; only the way there is
looked at before. What is written outside the folder is not kept. -/
def write (folder : Folder) (path : String) (content : ByteArray) : Except PathFault Folder := do
  let route ← Route.ofPath path
  if route.toDirectory then
    let _ ← folder.walk route.fromRoot (route.names.dropLast ++ ["."])
    throw .isDirectory
  match ← folder.walk route.fromRoot route.names with
  | .file names | .free names => return folder.put names content
  | .nothing | .beyond => return folder
  | .directory _ | .root | .devices | .around => throw .isDirectory

end Folder

/-- A folder with the standard streams. -/
structure Surroundings where
  folder : Folder := []
  input : ByteArray := .empty
  output : String := ""
  errors : String := ""

namespace Surroundings

def host : Host (StateM Surroundings) where
  readFile path := return ((← get).folder.read path).mapError PathFault.text
  readInput := return .ok (← get).input
  writeFile path text := do
    let here ← get
    match here.folder.write path text.toUTF8 with
    | .ok folder =>
        set { here with folder }
        return .ok ()
    | .error fault => return .error fault.text
  writeOutput text := do
    modify fun here => { here with output := here.output ++ text }
    return .ok ()
  writeError text := modify fun here => { here with errors := here.errors ++ text }
  note _ _ := pure ()

end Surroundings

end OnePass.Shell
