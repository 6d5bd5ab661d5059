/-!
# Files and directories

A directory tree, and how a path is followed in it. A path is followed one name at a time; every name
but the last has to lead to a directory, and so does the last one if a slash follows it.
-/

namespace SmallScheme

/-- Why a file cannot be read or written. -/
inductive FileFault where
  | notFound
  | notDirectory
  | isDirectory
  | nameTooLong
  | embeddedNul
  | notText
  | other (text : String)
  deriving DecidableEq, Repr

namespace FileFault

def text : FileFault → String
  | notFound => "No such file or directory (os error 2)"
  | notDirectory => "Not a directory (os error 20)"
  | isDirectory => "Is a directory (os error 21)"
  | nameTooLong => "File name too long (os error 36)"
  | embeddedNul => "file name contained an unexpected NUL byte"
  | notText => "stream did not contain valid UTF-8"
  | other text => text

end FileFault

def decodeText (bytes : ByteArray) : Except FileFault String :=
  match String.fromUTF8? bytes with
  | some text => .ok text
  | none => .error .notText

/-- Where a path has led so far: inside the tree, above it, where nothing is known, or to a directory of the system.
Names are given innermost first. -/
inductive Place where
  | directory (names : List String)
  | file (contents : ByteArray)
  | above
  | system (names : List String)

/-- The files below a directory, and the directories in it. Names are given innermost first. -/
structure Directory where
  files : List (List String × ByteArray) := []
  directories : List (List String) := []

namespace Directory

/-- The names in a path, and whether a slash ends it. -/
def pathNames (path : String) : List String × Bool :=
  (((path.splitOn "/").filter (· != "")), path.endsWith "/")

/-- The directories around a place, by the names that lead to it, innermost first. -/
def around : List String → List (List String)
  | [] => []
  | _ :: outer => outer :: around outer

/-- Adds a file together with the directories around it. A path that ends in a slash adds a
directory. -/
def add (d : Directory) (path : String) (contents : ByteArray) : Directory :=
  let (names, isDirectory) := pathNames path
  let found := (names.filter (· != ".")).reverse
  let directories := around found ++ d.directories
  if isDirectory then { d with directories := found :: directories }
  else { files := (found, contents) :: d.files, directories }

/-- The names lead to a directory of the tree. -/
def isDirectory (d : Directory) (names : List String) : Bool :=
  names.isEmpty || d.directories.contains names

/-- The directories in the root that every system has. -/
def systemDirectories : List String :=
  ["bin", "boot", "dev", "etc", "home", "lib", "media", "mnt", "opt", "proc", "root", "run", "sbin",
    "srv", "sys", "tmp", "usr", "var"]

/-- The directory around another. -/
def outward : Place → Place
  | .directory (_ :: names) => .directory names
  | .directory [] => .above
  | .system names => .system names.tail
  | place => place

/-- What a name stands for in a directory. -/
def enter? (d : Directory) (place : Place) (name : String) : Option Place :=
  match place with
  | .directory names =>
    let names := name :: names
    match d.files.lookup names with
    | some contents => some (.file contents)
    | none => if d.isDirectory names then some (.directory names) else none
  | .system [] => if systemDirectories.contains name then some (.system [name]) else none
  | .system ["dev"] => if name == "null" then some (.file .empty) else none
  | _ => none

def follow (d : Directory) (place : Place) (name : String) : Except FileFault Place :=
  match place with
  | .file _ => .error .notDirectory
  | _ =>
    if name == "." then .ok place
    else if name == ".." then .ok (outward place)
    else if 255 < name.utf8ByteSize then .error .nameTooLong
    else match d.enter? place name with
      | some inner => .ok inner
      | none => .error .notFound

/-- Where a path starts, the names to follow from there, and whether a slash ends it. -/
def route (path : String) : Except FileFault (Place × List String × Bool) :=
  if path.isEmpty then .error .notFound
  else if path.contains '\x00' then .error .embeddedNul
  else if 4096 ≤ path.utf8ByteSize then .error .nameTooLong
  else .ok (if path.startsWith "/" then .system [] else .directory [], pathNames path)

def resolve (d : Directory) (path : String) : Except FileFault Place := do
  let (start, names, endsInSlash) ← route path
  (if endsInSlash then names ++ ["."] else names).foldlM d.follow start

def read (d : Directory) (path : String) : Except FileFault ByteArray := do
  match ← d.resolve path with
  | .file contents => return contents
  | .directory _ | .above | .system _ => .error .isDirectory

def hasFile (d : Directory) (path : String) : Bool :=
  (d.read path).isOk

/-- Whether a file can be created or overwritten at a path. -/
def checkWrite (d : Directory) (path : String) : Except FileFault Unit := do
  let (start, names, endsInSlash) ← route path
  match ← names.dropLast.foldlM d.follow start, names.getLast? with
  | .file _, _ => .error .notDirectory
  | _, none => .error .isDirectory
  | place, some name =>
    if endsInSlash then .error .isDirectory
    else match d.follow place name with
      | .ok (.file _) | .error .notFound => .ok ()
      | .ok _ => .error .isDirectory
      | .error e => .error e

end Directory

end SmallScheme
