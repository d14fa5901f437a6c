import DosMonitor.Host.Fault

/-!
# What the monitor asks of its host

The monitor reads program files, and reads and saves the file behind the virtual disk. It does so by
requests that the host answers, so what a command does is a function of the answers.
-/

namespace DosMonitor

/-- An access to a file of the host. -/
inductive FileRequest
  | read (path : String)
  /-- Makes the directory that the file lies in, with those above it, then replaces the contents. -/
  | save (path : String) (contents : List UInt8)
  deriving DecidableEq, Repr

/-- The answer to a request: the contents that were read, or saved, or why that failed. -/
abbrev FileReply := Except Fault (List UInt8)

/-- How the host answers. -/
abbrev Host := FileRequest → FileReply

end DosMonitor
