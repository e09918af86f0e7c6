import RedisSnapshot.Source

/-!
# Trees of files

A tree of files in memory can stand for the files of an operating system. A path is followed name by
name from the root or from the current directory. Every place that it passes has to be a directory,
and only the last name may be one that is not there yet, if a file is to be created.
-/

namespace RedisSnapshot.CommandLine

inductive FileEntry where
  | directory
  | file (content : Bytes)
  /-- A device that has nothing to read and takes whatever is written. -/
  | sink
  /-- A device that reads as zeros. It takes whatever is written, or has no room for anything. -/
  | zeros (hasRoom : Bool)

structure FileTree where
  /-- What stands at a place, which is told by the names on the way there from the root. -/
  entries : List (List String × FileEntry)
  /-- The directory in which a path begins that does not begin at the root. -/
  current : List String

namespace FileTree

def system : List (List String × FileEntry) :=
  ["bin", "dev", "etc", "home", "lib", "opt", "proc", "root", "run", "sys", "tmp", "usr", "var"].map
      ([·], .directory) ++
    [(["dev", "null"], .sink), (["dev", "stdin"], .sink), (["dev", "stdout"], .sink),
      (["dev", "stderr"], .sink), (["dev", "zero"], .zeros true), (["dev", "full"], .zeros false)]

/-- A system with some files in its root, seen from another directory. -/
def ofFiles (files : List (String × Bytes)) : FileTree :=
  ⟨files.map (fun (name, content) => ([name], .file content)) ++ system, ["home", "user"]⟩

def missing : IoFailure :=
  .reported .notFound "No such file or directory (os error 2)"

def notDirectory : IoFailure :=
  .reported (.other "NotADirectory") "Not a directory (os error 20)"

def isDirectory : IoFailure :=
  .reported (.other "IsADirectory") "Is a directory (os error 21)"

def noRoom : IoFailure :=
  .reported .storageFull "No space left on device (os error 28)"

def longName : IoFailure :=
  .reported (.other "InvalidFilename") "File name too long (os error 36)"

def nameLimit : Nat := 255

def pathLimit : Nat := 4095

/-- The names in a path. The first one is empty if the path begins at the root. -/
def names (path : String) : Except IoFailure (List String) :=
  if path.isEmpty then .error missing
  else if pathLimit < path.utf8ByteSize then .error longName
  else .ok (path.splitOn "/")

/-- The root and the current directory are always there. -/
def entry? (tree : FileTree) (place : List String) : Option FileEntry :=
  if place.isEmpty || place == tree.current then some .directory else tree.entries.lookup place

/-- The place that a name stands for in a directory. -/
def enter (tree : FileTree) (place : List String) (name : String) :
    Except IoFailure (List String) :=
  match tree.entry? place with
  | none => .error missing
  | some .directory =>
      if name = "" ∨ name = "." then .ok place
      else if name = ".." then .ok place.dropLast
      else if nameLimit < name.utf8ByteSize then .error longName
      else .ok (place ++ [name])
  | some _ => .error notDirectory

/-- The place to which names lead. Nothing has to stand there. -/
def follow (tree : FileTree) (names : List String) : Except IoFailure (List String) :=
  names.foldlM tree.enter (if names.head? = some "" then [] else tree.current)

def find (tree : FileTree) (path : String) : Except IoFailure (List String × FileEntry) := do
  let place ← tree.follow (← names path)
  match tree.entry? place with
  | some entry => return (place, entry)
  | none => throw missing

/-- What there is to read at a path. A directory can be opened, but not read. -/
def contents (tree : FileTree) (path : String) : Source :=
  match tree.find path with
  | .ok (_, .file content) => .ofBytes content
  | .ok (_, .sink) => .ofBytes []
  | .ok (_, .zeros _) => .ofBytes (List.replicate pathLimit 0)
  | .ok (_, .directory) => ⟨[], some isDirectory, none⟩
  | .error failure => ⟨[], some failure, none⟩

def put (tree : FileTree) (place : List String) (entry : FileEntry) : FileTree :=
  { tree with entries := (place, entry) :: tree.entries.filter (·.1 != place) }

/-- Makes an empty file, or empties one. A path that ends in a slash can only be a directory. -/
def create (tree : FileTree) (path : String) : Except IoFailure FileTree := do
  let names ← names path
  let place ← tree.follow (names.reverse.dropWhile String.isEmpty).reverse
  if names.getLast? = some "" then throw isDirectory
  match tree.entry? place with
  | some .directory => throw isDirectory
  | some .sink | some (.zeros _) => return tree
  | some (.file _) | none => return tree.put place (.file [])

def append (tree : FileTree) (path : String) (content : Bytes) : Except IoFailure FileTree := do
  match ← tree.find path with
  | (place, .file held) => return tree.put place (.file (held ++ content))
  | (_, .directory) => throw isDirectory
  | (_, .zeros false) => if content.isEmpty then return tree else throw noRoom
  | (_, .zeros true) | (_, .sink) => return tree

end FileTree

end RedisSnapshot.CommandLine
