/-!
# Failures of the host

Files of the host back the virtual disk and the programs that are loaded. `Fault` lists what can go
wrong with one, with the host's error number where there is one.
-/

namespace DosMonitor

/-- Why the host refused an access to a file. -/
inductive Fault
  | notFound
  /-- A file stands where a directory was to be made. -/
  | alreadyExists
  | notADirectory
  | isADirectory
  | notText
  | other (text : String)
  deriving DecidableEq, Repr

/-- The failure with the host's error number, of which the host says the text. -/
def Fault.ofNumber (number : Nat) (text : String) : Fault :=
  match number with
  | 2 => .notFound
  | 17 => .alreadyExists
  | 20 => .notADirectory
  | 21 => .isADirectory
  | n => .other s!"{text} (os error {n})"

def Fault.message : Fault → String
  | notFound => "No such file or directory (os error 2)"
  | alreadyExists => "File exists (os error 17)"
  | notADirectory => "Not a directory (os error 20)"
  | isADirectory => "Is a directory (os error 21)"
  | notText => "stream did not contain valid UTF-8"
  | other text => text

end DosMonitor
