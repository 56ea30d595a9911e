/-!
# Directories and files

Paths are texts with slashes. They are joined and cut as they are written,
without asking what they lead to. A `Disk` is a tree of directories and files.
Paths are followed part by part: every part but the last one has to lead to a
directory. A place of the tree is named by the parts that lead to it from the
root, without dots.
-/
namespace Ferry

/-- What a file system may answer instead of doing what was asked. -/
inductive FileError where
  | missing
  | occupied
  | notDirectory
  | isDirectory
  | nameTooLong
  /-- The character with number zero cannot stand in a path. -/
  | badPath
  /-- The bytes of a file are not text. -/
  | notText
  | other (text : String)
  deriving DecidableEq, Repr

def FileError.message : FileError → String
  | missing => "No such file or directory (os error 2)"
  | occupied => "File exists (os error 17)"
  | notDirectory => "Not a directory (os error 20)"
  | isDirectory => "Is a directory (os error 21)"
  | nameTooLong => "File name too long (os error 36)"
  | badPath => "file name contained an unexpected NUL byte"
  | notText => "stream did not contain valid UTF-8"
  | other text => text

namespace Path

def isAbsolute (path : String) : Bool := path.toList.head? = some '/'

/-- A path below a base; an absolute one stands for itself. -/
def join (base path : String) : String :=
  if isAbsolute path then path
  else if base = "" ∨ base.toList.getLast? = some '/' then base ++ path
  else base ++ "/" ++ path

/-- Drops slashes, and dots that stand alone after a slash, from the end of a path in reverse. The
slash at the root stays. -/
def trimReversed : List Char → List Char
  | ['/'] => ['/']
  | '/' :: s => trimReversed s
  | '.' :: '/' :: s => trimReversed ('/' :: s)
  | s => s

/-- The path of the directory that holds what a path leads to, if the path has a last part. -/
def parent? (path : String) : Option String :=
  match trimReversed path.toList.reverse with
  | [] | ['/'] => none
  | s => some (String.ofList (trimReversed (s.dropWhile (· ≠ '/'))).reverse)

/-- The parts of a path between its slashes. -/
def parts (path : String) : List String :=
  (path.toList.splitOn '/').map String.ofList

end Path

/-- A directory with what it holds, or a file. -/
inductive FileNode where
  | directory (entries : List (String × FileNode))
  | text (content : String)
  /-- A file whose bytes are not text. -/
  | binary

namespace FileNode

instance : Inhabited FileNode := ⟨directory []⟩

def isDirectory : FileNode → Bool
  | directory _ => true
  | text _ | binary => false

/-- What a directory holds under a name. -/
def child? (name : String) : FileNode → Option FileNode
  | directory entries => entries.lookup name
  | text _ | binary => none

/-- What stands at a place. -/
def at? : (place : List String) → FileNode → Option FileNode
  | [], node => some node
  | name :: place, node => (node.child? name).bind (at? place)

/-- Puts an entry under a name, in place of the one that is there. -/
def setEntry (name : String) (node : FileNode) :
    List (String × FileNode) → List (String × FileNode)
  | [] => [(name, node)]
  | (other, old) :: entries =>
    if other = name then (name, node) :: entries else (other, old) :: setEntry name node entries

/-- Puts a node at a place, if directories lead to it. -/
def put (new : FileNode) : (place : List String) → FileNode → FileNode
  | [], _ => new
  | name :: place, directory entries =>
    match place, entries.lookup name with
    | [], _ => directory (setEntry name new entries)
    | place, some node => directory (setEntry name (put new place node) entries)
    | _, none => directory entries
  | _ :: _, node => node

/-- Removes what stands at a place. -/
def remove : (place : List String) → FileNode → FileNode
  | [], node => node
  | [name], directory entries => directory (entries.filter (·.1 ≠ name))
  | name :: place, directory entries =>
    match entries.lookup name with
    | some node => directory (setEntry name (remove place node) entries)
    | none => directory entries
  | _ :: _, node => node

end FileNode

/-- A tree of files with its root. -/
structure Disk where
  root : FileNode

/-- A name of a file has at most so many bytes. -/
def nameLimit : Nat := 255

/-- Where a path leads: a place, and what stands there. -/
structure Location where
  place : List String
  node : Option FileNode

namespace Disk

/-- A disk with nothing but its root. -/
def empty : Disk := ⟨.directory []⟩

def put (disk : Disk) (place : List String) (node : FileNode) : Disk :=
  ⟨.put node place disk.root⟩

/-- Follows the parts of a path from a place, whose parts are given from the last one back. -/
def walk (disk : Disk) : (back : List String) → (node : Option FileNode) → List String →
    Except FileError Location
  | back, node, [] => .ok ⟨back.reverse, node⟩
  | back, node, part :: rest =>
    match node with
    | none => .error .missing
    | some node =>
      if !node.isDirectory then .error .notDirectory
      else if part = "" ∨ part = "." then walk disk back (some node) rest
      else if part = ".." then walk disk back.tail (disk.root.at? back.tail.reverse) rest
      else if nameLimit < part.utf8ByteSize then .error .nameTooLong
      else walk disk (part :: back) (node.child? part) rest

/-- Where an absolute path leads. What its last part names need not be there. -/
def locate (disk : Disk) (path : String) : Except FileError Location :=
  if path = "" then .error .missing else disk.walk [] (some disk.root) (Path.parts path)

def exists? (disk : Disk) (path : String) : Bool :=
  match disk.locate path with
  | .ok location => location.node.isSome
  | .error _ => false

def isDirectory (disk : Disk) (path : String) : Bool :=
  match disk.locate path with
  | .ok location => location.node.any FileNode.isDirectory
  | .error _ => false

def read (disk : Disk) (path : String) : Except FileError String := do
  let location ← disk.locate path
  match location.node with
  | none => .error .missing
  | some (.directory _) => .error .isDirectory
  | some (.text content) => .ok content
  | some .binary => .error .notText

/-- Slashes at the end of a path make it a path of a directory. -/
def endsInSlash (path : String) : Bool := path.toList.getLast? = some '/'

/-- Writes a file, in place of one that is there. -/
def write (disk : Disk) (path : String) (file : FileNode) : Except FileError Disk :=
  let cut := String.ofList (path.toList.reverse.dropWhile (· = '/')).reverse
  if endsInSlash path then
    match disk.walk [] (some disk.root) (Path.parts cut) with
    | .ok _ => .error .isDirectory
    | .error e => .error e
  else
    match disk.locate path with
    | .error e => .error e
    | .ok location =>
      if location.node.any FileNode.isDirectory then .error .isDirectory
      else .ok (disk.put location.place file)

/-- Removes a file; directories stay. -/
def removeFile (disk : Disk) (path : String) : Except FileError Disk :=
  match disk.locate path with
  | .error e => .error e
  | .ok location =>
    match location.node with
    | none => .error .missing
    | some (.directory _) => .error .isDirectory
    | some _ => .ok ⟨disk.root.remove location.place⟩

def makeDirectory (disk : Disk) (path : String) : Except FileError Disk :=
  match disk.locate path with
  | .error e => .error e
  | .ok location =>
    if location.node.isSome then .error .occupied
    else .ok (disk.put location.place (.directory []))

/-- Makes a directory unless there is one. -/
def ensureDirectory (disk : Disk) (path : String) : Except FileError Disk :=
  match disk.makeDirectory path with
  | .error .occupied => if disk.isDirectory path then .ok disk else .error .occupied
  | r => r

/-- Makes a directory and the directories on the way to it that are missing. -/
def makeDirectoriesFrom : (fuel : Nat) → Disk → String → Except FileError Disk
  | 0, disk, _ => .ok disk
  | fuel + 1, disk, path =>
    match Path.parent? path with
    | none => .ok disk
    | some parent =>
      match disk.ensureDirectory path with
      | .error .missing =>
        match makeDirectoriesFrom fuel disk parent with
        | .error e => .error e
        | .ok disk => disk.ensureDirectory path
      | r => r

def makeDirectories (disk : Disk) (path : String) : Except FileError Disk :=
  makeDirectoriesFrom path.length disk path

end Disk

end Ferry
