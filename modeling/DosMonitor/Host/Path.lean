import DosMonitor.Text.Split

/-!
# Paths of the host

Paths are texts with slashes between components. `join` puts a relative path behind a directory, and
`directories` names the directories that a path lies in.
-/

namespace DosMonitor.Path

/-- A relative path as seen from a directory. -/
def join (directory file : String) : String :=
  match directory.toList.getLast? with
  | none => file
  | some '/' => directory ++ file
  | some _ => directory ++ "/" ++ file

def isAbsolute (path : String) : Bool :=
  path.toList.head? == some '/'

/-- The beginnings of a path that end with a component, the longest last, when `before` is what stands
in front of the parts. Empty parts and points are no components. -/
def stemsFrom (before : String) : (parts : List String) → List String
  | [] => []
  | part :: parts =>
    let here := before ++ part
    let longer := stemsFrom (here ++ "/") parts
    if part == "" || part == "." then longer else here :: longer

/-- The beginnings of a path that end with a component, as they are written, the longest last. A point
is a component where the path starts with it. -/
def stems (path : String) : List String :=
  match (Text.splitAt '/' path.toList).map String.ofList with
  | "." :: parts => "." :: stemsFrom "./" parts
  | parts => stemsFrom "" parts

/-- The directories in which a path lies, as they are written, the innermost first. The root and the
working directory, which are always there, are left out unless the path starts with a point. -/
def directories (path : String) : List String :=
  (stems path).reverse.drop 1

end DosMonitor.Path
