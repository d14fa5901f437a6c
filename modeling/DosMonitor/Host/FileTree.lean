import DosMonitor.Host.Request
import DosMonitor.Host.Path
import DosMonitor.Text.Utf8

/-!
# A tree of files

A model of the host's files: places are named by the components on the way from the root, and each
holds a directory or the contents of a file. Paths are followed component by component, as the host
does, each through a directory that exists.

The working directory lies in a directory of the root, both under names that no path can spell.
-/

namespace DosMonitor

/-- The components on the way from the root to a place. -/
abbrev Place := List String

/-- What is found at a place. -/
inductive FileNode
  | directory
  | file (contents : List UInt8)
  deriving DecidableEq, Repr

/-- The directories and files there are, but for the root. -/
structure FileTree where
  entries : List (Place × FileNode)
  deriving DecidableEq, Repr

namespace FileTree

def workingPlace : Place :=
  ["", ""]

def empty : FileTree :=
  ⟨[(workingPlace, .directory), (workingPlace.dropLast, .directory)]⟩

def node? (t : FileTree) (place : Place) : Option FileNode :=
  if place.isEmpty then some .directory else t.entries.lookup place

def put (t : FileTree) (place : Place) (node : FileNode) : FileTree :=
  ⟨(place, node) :: t.entries.filter fun entry => entry.1 != place⟩

def maxNameBytes : Nat := 255

def maxPathBytes : Nat := 4095

/-- The host's words for a name or a path with more bytes than that. -/
def nameTooLong : Fault :=
  .other "File name too long (os error 36)"

/-- The host's words for a path with a character that cannot stand in one. -/
def nulInPath : Fault :=
  .other "file name contained an unexpected NUL byte"

/-- The place at which following a path starts, and its components. -/
def route (path : String) : Except Fault (Place × List String) :=
  if path.toList.contains '\x00' then .error nulInPath
  else if path.isEmpty then .error .notFound
  else if maxPathBytes < path.utf8ByteSize then .error nameTooLong
  else
    let parts := (Text.splitAt '/' path.toList).map String.ofList
    .ok (if Path.isAbsolute path then [] else workingPlace, parts.filter (· != ""))

/-- Fails unless there is a directory at a place. -/
def expectDirectory (t : FileTree) (place : Place) : Except Fault Unit :=
  match t.node? place with
  | some .directory => .ok ()
  | some (.file _) => .error .notADirectory
  | none => .error .notFound

/-- Whether a component is one of the two by which a directory names itself and the one above it. -/
def isStep (name : String) : Bool :=
  name == "." || name == ".."

/-- The place that one component leads to from another place. It need not hold anything. -/
def child (t : FileTree) (place : Place) (name : String) : Except Fault Place := do
  t.expectDirectory place
  if name == "." then return place
  if name == ".." then return place.dropLast
  if maxNameBytes < name.utf8ByteSize then throw nameTooLong
  return place ++ [name]

/-- The place that components lead to. -/
def follow (t : FileTree) : Place → List String → Except Fault Place
  | place, [] => .ok place
  | place, name :: names => do
    let next ← t.child place name
    if (t.node? next).isSome then t.follow next names else throw .notFound

/-- Whether the path can only name a directory because it ends in a slash. -/
def endsInSlash (path : String) : Bool :=
  path.toList.getLast? == some '/'

def read (t : FileTree) (path : String) : FileReply := do
  let (start, names) ← route path
  let place ← t.follow start (if endsInSlash path then names ++ ["."] else names)
  match t.node? place with
  | some (.file contents) => return contents
  | some .directory => throw .isADirectory
  | none => throw .notFound

/-- Replaces the contents of a file, which is made if it does not exist. A path that cannot name a file
is refused before its last name is looked at. -/
def write (t : FileTree) (path : String) (contents : List UInt8) : Except Fault FileTree := do
  let (start, names) ← route path
  let place ← t.follow start names.dropLast
  match names.getLast? with
  | none => throw .isADirectory
  | some name =>
    t.expectDirectory place
    if endsInSlash path || isStep name then throw .isADirectory
    let target ← t.child place name
    if t.node? target == some .directory then throw .isADirectory
    return t.put target (.file contents)

def isDirectory (t : FileTree) (path : String) : Bool :=
  match (do let (start, names) ← route path; t.follow start names) with
  | .ok place => t.node? place == some .directory
  | .error _ => false

def makeDirectory (t : FileTree) (path : String) : Except Fault FileTree := do
  let (start, names) ← route path
  let place ← t.follow start names.dropLast
  match names.getLast? with
  | none => throw .alreadyExists
  | some name =>
    t.expectDirectory place
    if isStep name then throw .alreadyExists
    let target ← t.child place name
    if (t.node? target).isSome then throw .alreadyExists
    return t.put target .directory

/-- Makes a directory, or finds that it exists. -/
def ensureDirectory (t : FileTree) (path : String) : Except Fault FileTree :=
  match t.makeDirectory path with
  | .ok t => .ok t
  | .error fault => if t.isDirectory path then .ok t else .error fault

/-- Makes the first of some directories, each of which lies in the next. Those further out are tried
only where something on the way is missing, and what has been made stays if the rest fails. -/
def ensureDirectories (t : FileTree) : (paths : List String) → Except Fault Unit × FileTree
  | [] => (.ok (), t)
  | path :: outer =>
    match t.ensureDirectory path with
    | .ok t => (.ok (), t)
    | .error .notFound =>
      match t.ensureDirectories outer with
      | (.error fault, t) => (.error fault, t)
      | (.ok (), t) =>
        match t.ensureDirectory path with
        | .ok t => (.ok (), t)
        | .error fault => (.error fault, t)
    | .error fault => (.error fault, t)

/-- Makes the directories that a file lies in, then replaces the file's contents. What has been made
stays if the rest fails. -/
def save (t : FileTree) (path : String) (contents : List UInt8) : Except Fault Unit × FileTree :=
  match t.ensureDirectories (Path.directories path) with
  | (.error fault, t) => (.error fault, t)
  | (.ok (), t) =>
    match t.write path contents with
    | .error fault => (.error fault, t)
    | .ok t => (.ok (), t)

def answer (t : FileTree) : FileRequest → FileReply × FileTree
  | .read path => (t.read path, t)
  | .save path contents =>
    match t.save path contents with
    | (.ok (), t) => (.ok contents, t)
    | (.error fault, t) => (.error fault, t)

end FileTree

end DosMonitor
